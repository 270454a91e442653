/-
The levels of `allocate_memory`.

A level serves the request, or no region that it tried has room and it claims
more memory.  Every claim that succeeds uses up some of what can still be
claimed, so that there are not many levels.
-/
import WasixLibc.EmmallocGrowth

namespace WasixLibc

namespace Emmalloc

open Mman (wrap)

/-! Sizes and alignments -/

theorem validateAllocAlignment_idem (alignment : Nat) :
    validateAllocAlignment (validateAllocAlignment alignment) =
      validateAllocAlignment alignment := by
  unfold validateAllocAlignment
  omega

theorem isPowerOf2_validate {alignment : Nat} (hpower : isPowerOf2 alignment = true) :
    isPowerOf2 (validateAllocAlignment alignment) = true := by
  unfold validateAllocAlignment
  rw [Nat.max_def]
  split
  · decide
  · exact hpower

/-- Sizes that can be rounded up: the result is the least multiple of 4 from `size`
and 8 on. -/
theorem validateAllocSize_spec {size : Nat} (hsize : size ≤ 4294967292) :
    size ≤ validateAllocSize size ∧ SMALLEST_ALLOCATION_SIZE ≤ validateAllocSize size ∧
      validateAllocSize size % POINTER_SIZE = 0 ∧
      ∀ n, size ≤ n → SMALLEST_ALLOCATION_SIZE ≤ n → n % POINTER_SIZE = 0 →
        validateAllocSize size ≤ n := by
  unfold validateAllocSize
  split
  · simp only [alignUp, wrap, POINTER_SIZE, SMALLEST_ALLOCATION_SIZE] at *
    refine ⟨by omega, by omega, by omega, fun n hle hsmall hmod => ?_⟩
    omega
  · rename_i hsmall
    exact ⟨Nat.not_lt.mp hsmall, Nat.le_refl _, rfl, fun _ _ hle _ => hle⟩

theorem validateAllocSize_idem {size : Nat} (hsize : size ≤ 4294967292) :
    validateAllocSize (validateAllocSize size) = validateAllocSize size := by
  obtain ⟨_, hsmall, hmod, hleast⟩ := validateAllocSize_spec hsize
  have hle := hleast 4294967292 hsize (by decide) (by decide)
  obtain ⟨hge, _, _, hleast'⟩ := validateAllocSize_spec hle
  exact Nat.le_antisymm (hleast' _ (Nat.le_refl _) hsmall hmod) hge

/-- Requests up to here are rounded up to pages without a change of sign. -/
abbrev MAX_GROWTH_SIZE : Nat := MAX_CLAIM_SIZE - 3 * REGION_SIZE

theorem validateAllocSize_le {size : Nat} (hsize : size ≤ MAX_GROWTH_SIZE) :
    validateAllocSize size ≤ MAX_GROWTH_SIZE := by
  simp only [MAX_GROWTH_SIZE, MAX_CLAIM_SIZE, REGION_SIZE] at hsize ⊢
  have hrange : size ≤ 4294967292 := by omega
  obtain ⟨_, _, _, hleast⟩ := validateAllocSize_spec hrange
  exact hleast _ hsize (by decide) (by decide)

/-! One level -/

variable {h h' : Heap} {alignment size : Nat} {s : Attempt} {host : Nat → Growth × Growth}

/-- A search for `size` bytes tries a region that has room. -/
def Serves (alignment size : Nat) (h : Heap) : Prop :=
  ∃ r, Ready r h ∧ r.HasRoom alignment size ∧ computeFreeListBucket size ≤ r.bucket

/-- How a level ends that looks for `size` bytes at `alignment`. -/
inductive Level (alignment size : Nat) (s : Attempt) :
    Round Attempt (Except Fault Outcome) → Prop where
  | fault {fault : Fault} (hcause : Wraps alignment size fault ∨ MAX_GROWTH_SIZE < size) :
      Level alignment size s (.done (.error fault))
  | served {ptr : Nat} {h : Heap} (hsound : Sound h) :
      Level alignment size s (.done (.ok ⟨some ptr, h, s.claims⟩))
  | failed {ptr : Option Nat} {h h' : Heap} (hsound : Sound h')
      (hplaced : ∀ p ∈ ptr, Placed alignment size h p)
      (hnone : ¬Serves alignment size s.heap) :
      Level alignment size s (.done (.ok ⟨ptr, h', s.claims ++ [⟨h, none⟩]⟩))
  | again {claimed : Claimed} {h h' : Heap} (hsound : Sound h')
      (hsame : SameMemory s.heap h)
      (hgrown : size ≤ MAX_GROWTH_SIZE → Grown (size + 3 * REGION_SIZE) h claimed h')
      (hnone : ¬Serves alignment size s.heap) :
      Level alignment size s
        (.again ⟨alignment, size, h', s.claims ++ [⟨h, some claimed⟩]⟩)

/-- What is tried in a bucket that is marked. -/
theorem search_none (hs : Sound h)
    (hcall : searchBuckets alignment size (usedBuckets (computeFreeListBucket size) h) h =
      .ok (none, h')) : ¬Serves alignment size h := by
  rintro ⟨r, hready, hroom, hbucket⟩
  have hmem : r.addr ∈ h.freeRegionBuckets r.bucket := List.mem_of_head? hready.first
  have hused := hs.bucketed.used r.bucket (List.ne_nil_of_mem hmem)
  have hlt := hs.bucket_lt hready.mem
  exact searchBuckets_ready hs (fun i hi => (mem_usedBuckets.mp hi).1) hready hroom
    (mem_usedBuckets.mpr ⟨hlt, hbucket, hused⟩) hcall

theorem claimOrRetry_level (hs : Sound h) (halignment : 0 < alignment)
    (hsize : SMALLEST_ALLOCATION_SIZE ≤ size) (hsame : SameMemory s.heap h)
    (hnone : ¬Serves alignment size s.heap) :
    Level alignment size s (claimOrRetry host ⟨alignment, size, h, s.claims⟩) := by
  unfold claimOrRetry
  have hclaims : Claims (size + 3 * REGION_SIZE) h (claimMoreMemory (size + 3 * REGION_SIZE)
      (host s.claims.length).1 (host s.claims.length).2 h) :=
    claimMoreMemory_claims hs (Nat.le_add_left _ _)
  dsimp only
  generalize claimMoreMemory _ _ _ h = result at hclaims
  cases hclaims with
  | fault hlarge =>
      refine .fault (Or.inr ?_)
      simp only [MAX_GROWTH_SIZE, MAX_CLAIM_SIZE, REGION_SIZE] at hlarge ⊢
      omega
  | grown hsound hgrown =>
      refine .again hsound hsame (fun hle => hgrown ?_) hnone
      simp only [MAX_GROWTH_SIZE, MAX_CLAIM_SIZE, REGION_SIZE] at hle ⊢
      omega
  | @refused pages hle hmax =>
      have hs' : Sound { h with pages := pages } := hs.grow hle hmax
      have hends : Ends alignment size { h with pages := pages } (tryRegions alignment size
          ((largestBucket { h with pages := pages }).drop (numTries { h with pages := pages }))
          { h with pages := pages }) :=
        tryRegions_ends hs' (fun addr hmem => hs'.largestBucket (List.mem_of_mem_drop hmem))
          halignment hsize
      dsimp only
      generalize tryRegions _ _ _ _ = result at hends
      cases hends with
      | wrapped hwraps => exact .fault (Or.inl hwraps)
      | returned hsearched => exact .failed hsearched.sound hsearched.placed hnone

theorem allocateRound_level (hs : Sound s.heap) (hpower : isPowerOf2 s.alignment = true)
    (hsize : s.size ≤ MAX_ALLOC_SIZE) :
    Level (validateAllocAlignment s.alignment) (validateAllocSize s.size) s
      (allocateRound host s) := by
  have hrange : s.size ≤ 4294967292 := Nat.le_trans hsize (by decide)
  obtain ⟨_, hsmall, _⟩ := validateAllocSize_spec hrange
  unfold allocateRound
  rw [if_neg (by simp [hpower]), if_neg (Nat.not_lt.mpr hsize)]
  dsimp only
  have halignment : 0 < validateAllocAlignment s.alignment :=
    Nat.lt_of_lt_of_le (by decide) (Nat.le_max_right _ _)
  generalize validateAllocAlignment s.alignment = alignment at halignment
  generalize validateAllocSize s.size = size at hsmall
  have hends : Ends alignment size s.heap (searchBuckets alignment size
      (usedBuckets (computeFreeListBucket size) s.heap) s.heap) :=
    searchBuckets_ends hs (fun i hi => (mem_usedBuckets.mp hi).1) halignment hsmall
  generalize hsearch : searchBuckets _ _ _ _ = result at hends
  cases hends with
  | wrapped hwraps => exact .fault (Or.inl hwraps)
  | @returned ptr h hsearched =>
      cases ptr with
      | some ptr => exact .served hsearched.sound
      | none =>
          have hnone := search_none hs hsearch
          have hs' := hsearched.sound
          have hends' : Ends alignment size h (tryRegions alignment size
              ((largestBucket h).take (numTries h)) h) :=
            tryRegions_ends hs' (fun addr hmem => hs'.largestBucket (List.mem_of_mem_take hmem))
              halignment hsmall
          dsimp only
          generalize tryRegions _ _ _ _ = result at hends'
          cases hends' with
          | wrapped hwraps => exact .fault (Or.inl hwraps)
          | @returned ptr h' hsearched' =>
              cases ptr with
              | some ptr => exact .served hsearched'.sound
              | none =>
                  exact claimOrRetry_level hsearched'.sound halignment hsmall
                    (hsearched.same.trans hsearched'.same) hnone

theorem allocateRound_invalid
    (hinvalid : ¬(isPowerOf2 s.alignment = true ∧ s.size ≤ MAX_ALLOC_SIZE)) :
    allocateRound host s = .done (.ok ⟨none, s.heap, s.claims⟩) := by
  unfold allocateRound
  by_cases hpower : isPowerOf2 s.alignment = true
  · have hlarge : MAX_ALLOC_SIZE < s.size := Nat.lt_of_not_le fun hle => hinvalid ⟨hpower, hle⟩
    rw [if_neg (by simp [hpower]), if_pos hlarge]
  · rw [if_pos (by simpa using hpower)]

/-! All levels -/

/-- What a level leaves is sound, whatever the size. -/
theorem allocateRound_sound (hs : Sound s.heap) :
    (∀ out, allocateRound host s = .done (.ok out) → Sound out.heap) ∧
      ∀ t, allocateRound host s = .again t → Sound t.heap := by
  by_cases hvalid : isPowerOf2 s.alignment = true ∧ s.size ≤ MAX_ALLOC_SIZE
  · have hlevel : Level (validateAllocAlignment s.alignment) (validateAllocSize s.size) s
        (allocateRound host s) := allocateRound_level hs hvalid.1 hvalid.2
    constructor
    · intro out hround
      rw [hround] at hlevel
      cases hlevel with
      | served hsound => exact hsound
      | failed hsound => exact hsound
    · intro t hround
      rw [hround] at hlevel
      cases hlevel with
      | again hsound => exact hsound
  · rw [allocateRound_invalid hvalid]
    constructor
    · rintro out ⟨⟩
      exact hs
    · rintro t ⟨⟩

theorem allocateMemory_sound {depth : Nat} {out : Outcome} (hs : Sound h)
    (hcall : allocateMemory host depth alignment size h = some (.ok out)) : Sound out.heap := by
  have hreturns : Round.Returns (allocateRound host) ⟨alignment, size, h, []⟩ (.ok out) :=
    ⟨depth, hcall⟩
  have hstart : Sound (Attempt.mk alignment size h []).heap := hs
  generalize Attempt.mk alignment size h [] = s at hreturns hstart
  induction hreturns using Round.Returns.induction with
  | done hbody => exact (allocateRound_sound hstart).1 out hbody
  | again hbody _ ih => exact ih ((allocateRound_sound hstart).2 _ hbody)

/-- A claim that succeeded added a block which lies behind every other and which the
request fits in; at a small alignment it fits in the free region, too, unless the
block has no byte more than was asked for. -/
structure Added (alignment size : Nat) (h : Heap) (claimed : Claimed) : Prop where
  apart : ∀ root ∈ h.listOfAllRegions, root.endPtr ≤ claimed.startPtr
  large : claimed.startPtr + size + 3 * REGION_SIZE ≤ claimed.endPtr
  end_le : claimed.endPtr ≤ 4294967296
  payload : claimed.region.payloadStart + size + REGION_HEADER_SIZE ≤ claimed.region.payloadEnd
  room : alignment ≤ MALLOC_ALIGNMENT →
    claimed.endPtr ≠ claimed.startPtr + size + 3 * REGION_SIZE →
    claimed.region.HasRoom (validateAllocAlignment alignment) size

/-- The claims of an allocation that returns `ptr`.  One that fails is the last, and
what is returned then was free before; one after which there is room is the
last, and something is returned. -/
inductive GrowthSafe (alignment size : Nat) (ptr : Option Nat) : List Claim → Prop where
  | nil : GrowthSafe alignment size ptr []
  | failed {h : Heap}
      (hplaced : ∀ p ∈ ptr, Placed (validateAllocAlignment alignment) size h p) :
      GrowthSafe alignment size ptr [⟨h, none⟩]
  | added {h : Heap} {claimed : Claimed} {later : List Claim}
      (hadded : Added alignment size h claimed)
      (hserved : claimed.region.HasRoom (validateAllocAlignment alignment) size →
        later = [] ∧ ptr ≠ none)
      (hlater : GrowthSafe alignment size ptr later) :
      GrowthSafe alignment size ptr (⟨h, some claimed⟩ :: later)

theorem Grown.added {claimed : Claimed} (hs : Sound h')
    (hgrown : Grown (size + 3 * REGION_SIZE) h claimed h') (hsize : size % POINTER_SIZE = 0) :
    Added alignment size h claimed := by
  have hstop := (hs.stop_le hgrown.ready.mem).2 (by simp [hgrown.ready.free])
  have hlarge := hgrown.large
  have haligned := hgrown.aligned
  have hregion := hgrown.region
  simp only [Region.stop, REGION_SIZE, MALLOC_ALIGNMENT, POINTER_SIZE] at *
  refine ⟨hgrown.apart, by simp only [REGION_SIZE]; omega, hgrown.end_le, ?_, fun hsmall hne => ?_⟩
  · simp only [Region.payloadStart, Region.payloadEnd, POINTER_SIZE, REGION_HEADER_SIZE]
    omega
  · have hvalid : validateAllocAlignment alignment = 16 := Nat.max_eq_right hsmall
    unfold Region.HasRoom
    rw [hvalid]
    simp only [Region.payloadStart, Region.payloadEnd, alignUp, wrap, POINTER_SIZE,
      REGION_SIZE] at hne ⊢
    omega

/-- The request of a level is `size` bytes at `alignment`. -/
structure Trying (alignment size : Nat) (s : Attempt) : Prop where
  sound : Sound s.heap
  alignment_eq : validateAllocAlignment s.alignment = validateAllocAlignment alignment
  size_eq : validateAllocSize s.size = size
  size_le : s.size ≤ MAX_GROWTH_SIZE

/-- What a level and those after it end with. -/
structure Finishes (alignment size : Nat) (s : Attempt) (later : List Claim) (out : Outcome) :
    Prop where
  sound : Sound out.heap
  claims_eq : out.claims = s.claims ++ later
  safe : GrowthSafe alignment size out.ptr later
  served : isPowerOf2 s.alignment = true →
    Serves (validateAllocAlignment alignment) size s.heap → later = [] ∧ out.ptr ≠ none

/-- Only a wrapped sum keeps a level from its end. -/
def Post (alignment size : Nat) (s : Attempt) (result : Except Fault Outcome) : Prop :=
  (∃ fault, result = .error fault ∧ Wraps (validateAllocAlignment alignment) size fault) ∨
    ∃ out later, result = .ok out ∧ Finishes alignment size s later out

/-- The free region of a block that was added is in a bucket that is searched. -/
theorem Grown.serves {claimed : Claimed} (hs : Sound h')
    (hgrown : Grown (size + 3 * REGION_SIZE) h claimed h') (hsize : size % POINTER_SIZE = 0)
    (hroom : claimed.region.HasRoom (validateAllocAlignment alignment) size) :
    Serves (validateAllocAlignment alignment) size h' := by
  have hadded : Added alignment size h claimed := hgrown.added hs hsize
  have hpayload := hadded.payload
  have hstop := (hs.stop_le hgrown.ready.mem).1
  refine ⟨claimed.region, hgrown.ready, hroom, bucket_mono ?_ ?_⟩ <;>
    simp only [Region.stop, Region.payloadStart, Region.payloadEnd, POINTER_SIZE,
      REGION_HEADER_SIZE] at * <;> omega

theorem Post.back {t : Attempt} {claim : Claim} {result : Except Fault Outcome}
    (hpost : Post alignment size t result) (hclaims : t.claims = s.claims ++ [claim])
    (hsafe : ∀ {later out}, Finishes alignment size t later out →
      GrowthSafe alignment size out.ptr (claim :: later))
    (hnone : ¬Serves (validateAllocAlignment alignment) size s.heap) :
    Post alignment size s result := by
  rcases hpost with hwrapped | ⟨out, later, hresult, hfinishes⟩
  · exact Or.inl hwrapped
  · refine Or.inr ⟨out, claim :: later, hresult, hfinishes.sound, ?_, hsafe hfinishes,
      fun _ hserves => absurd hserves hnone⟩
    rw [hfinishes.claims_eq, hclaims, List.append_assoc, List.singleton_append]

/-- One round of the levels. -/
theorem Trying.round (htrying : Trying alignment size s) :
    (∃ result, allocateRound host s = .done result ∧ Post alignment size s result) ∨
      ∃ t, allocateRound host s = .again t ∧ Trying alignment size t ∧
        t.heap.unclaimed < s.heap.unclaimed ∧
        ∀ result, Post alignment size t result → Post alignment size s result := by
  obtain ⟨hs, halignment, rfl, hle⟩ := htrying
  have hmax : s.size ≤ MAX_ALLOC_SIZE := Nat.le_trans hle (by decide)
  have hrange : s.size ≤ 4294967292 := Nat.le_trans hle (by decide)
  obtain ⟨_, _, hmod, _⟩ := validateAllocSize_spec hrange
  have hle' := validateAllocSize_le hle
  by_cases hpower : isPowerOf2 s.alignment = true
  · have hlevel : Level (validateAllocAlignment s.alignment) (validateAllocSize s.size) s
        (allocateRound host s) := allocateRound_level hs hpower hmax
    rw [halignment] at hlevel
    generalize allocateRound host s = round at hlevel
    cases hlevel with
    | fault hcause =>
        exact Or.inl ⟨_, rfl, Or.inl ⟨_, rfl, hcause.resolve_right (Nat.not_lt.mpr hle')⟩⟩
    | served hsound =>
        exact Or.inl ⟨_, rfl, Or.inr ⟨_, [], rfl, hsound, by simp, .nil, fun _ _ => by simp⟩⟩
    | failed hsound hplaced hnone =>
        exact Or.inl ⟨_, rfl, Or.inr ⟨_, _, rfl, hsound, rfl, .failed hplaced,
          fun _ hserves => absurd hserves hnone⟩⟩
    | @again claimed h h' hsound hsame hgrown hnone =>
        have hgrown' := hgrown hle'
        refine Or.inr ⟨_, rfl, ⟨hsound, ?_, validateAllocSize_idem hrange, hle'⟩, ?_,
          fun result hpost => hpost.back rfl (fun hfinishes => ?_) hnone⟩
        · exact validateAllocAlignment_idem alignment
        · have hprogress := hgrown'.progress
          unfold Heap.unclaimed at hprogress ⊢
          rw [hsame.pages_eq, hsame.roots_eq] at hprogress
          exact hprogress
        · refine .added (hgrown'.added hsound hmod) (fun hroom => ?_) hfinishes.safe
          refine hfinishes.served ?_ (hgrown'.serves hsound hmod hroom)
          rw [← halignment]
          exact isPowerOf2_validate hpower
  · have hcall : allocateRound host s = .done (.ok ⟨none, s.heap, s.claims⟩) :=
      allocateRound_invalid fun hvalid => hpower hvalid.1
    exact Or.inl ⟨_, hcall, Or.inr ⟨_, [], rfl, hs, by simp, .nil, fun h => absurd h hpower⟩⟩

end Emmalloc

end WasixLibc
