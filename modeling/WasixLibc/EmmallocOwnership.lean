/-
The regions that the small allocator hands out and takes back.

An operation takes back the region of at most one pointer and hands out at most
one other.  All other regions in use stay where they are, and may get longer.
-/
import WasixLibc.EmmallocRuns

namespace WasixLibc

namespace Emmalloc

open Mman (wrap)

/-- The payloads that are in use. -/
def usedStarts (regions : List Region) : List Nat :=
  (regions.filter fun r => r.kind = .used).map Region.payloadStart

variable {h h' h'' : Heap} {regions old mid new before behind : List Region} {r s : Region}
variable {size bump ptr : Nat}

@[simp] theorem usedStarts_append (before behind : List Region) :
    usedStarts (before ++ behind) = usedStarts before ++ usedStarts behind := by
  simp [usedStarts]

theorem usedStarts_cons_used (hused : r.kind = .used) :
    usedStarts (r :: regions) = r.payloadStart :: usedStarts regions := by
  simp [usedStarts, hused]

theorem usedStarts_cons_other (hused : r.kind ≠ .used) :
    usedStarts (r :: regions) = usedStarts regions := by
  simp [usedStarts, hused]

theorem mem_usedStarts : ptr ∈ usedStarts regions ↔
    ∃ r ∈ regions, r.kind = .used ∧ r.payloadStart = ptr := by
  simp [usedStarts, and_assoc]

/-- Every payload in use has a region of its own. -/
theorem Sound.usedStarts_nodup (hs : Sound h) : (usedStarts h.regions).Nodup := by
  have hordered : (h.regions.filter fun r => r.kind = .used).Pairwise
      fun r s => r.stop ≤ s.addr := hs.laid.ordered.filter _
  refine List.pairwise_map.mpr (List.Pairwise.imp_of_mem ?_ hordered)
  intro r s hr _ hle heq
  have hsize : 16 ≤ r.size := hs.laid.size_le r (List.mem_of_mem_filter hr)
  simp only [Region.stop, Region.payloadStart] at hle heq
  omega

/-- Of the regions in use, `back` was given back and `out` was handed out. -/
structure Exchange (back out : Option Nat) (old new : List Region) : Prop where
  starts : (back.toList ++ usedStarts new).Perm (out.toList ++ usedStarts old)
  keeps : ∀ r ∈ old, r.kind = .used → r.payloadStart ∉ back →
    ∃ s ∈ new, s.kind = .used ∧ s.addr = r.addr ∧ r.size ≤ s.size

theorem Exchange.refl (regions : List Region) : Exchange none none regions regions :=
  ⟨List.Perm.refl _, fun r hr hused _ => ⟨r, hr, hused, rfl, Nat.le_refl _⟩⟩

theorem Exchange.of_eq (heq : new = old) : Exchange none none old new := heq ▸ .refl old

/-- Nothing happens before. -/
theorem Exchange.after {back out : Option Nat} (hfirst : Exchange none none old mid)
    (hrest : Exchange back out mid new) : Exchange back out old new where
  starts := hrest.starts.trans (List.Perm.append_left _ hfirst.starts)
  keeps r hr hused hback := by
    obtain ⟨s, hs, hused', haddr, hsize⟩ := hfirst.keeps r hr hused nofun
    have hback' : s.payloadStart ∉ back := by
      unfold Region.payloadStart at hback ⊢
      rwa [haddr]
    obtain ⟨t, ht, hused'', haddr', hsize'⟩ := hrest.keeps s hs hused' hback'
    exact ⟨t, ht, hused'', haddr'.trans haddr, Nat.le_trans hsize hsize'⟩

/-- A pointer is handed out, and then another is given back. -/
theorem Exchange.trade {back out : Nat} (hfirst : Exchange none (some out) old mid)
    (hrest : Exchange (some back) none mid new) : Exchange (some back) (some out) old new where
  starts := hrest.starts.trans hfirst.starts
  keeps r hr hused hback := by
    obtain ⟨s, hs, hused', haddr, hsize⟩ := hfirst.keeps r hr hused nofun
    have hback' : s.payloadStart ∉ some back := by
      unfold Region.payloadStart at hback ⊢
      rwa [haddr]
    obtain ⟨t, ht, hused'', haddr', hsize'⟩ := hrest.keeps s hs hused' hback'
    exact ⟨t, ht, hused'', haddr'.trans haddr, Nat.le_trans hsize hsize'⟩

/-- Only regions that are not in use differ. -/
theorem Exchange.of_used (hused : (new.filter fun r => r.kind = .used) =
    old.filter fun r => r.kind = .used) : Exchange none none old new where
  starts := by
    unfold usedStarts
    rw [hused]
  keeps r hr hkind _ := by
    have hmem : r ∈ new.filter fun r => r.kind = .used := by
      rw [hused]
      simpa [hkind] using hr
    exact ⟨r, List.mem_of_mem_filter hmem, hkind, rfl, Nat.le_refl _⟩

/-- `ptr` was handed out for `size` bytes. -/
structure Handed (alignment size ptr : Nat) (old new : List Region) : Prop where
  exchange : Exchange none (some ptr) old new
  aligned : ptr % alignment = 0
  backed : ∃ r ∈ new, r.kind = .used ∧ r.payloadStart = ptr ∧ ptr + size ≤ r.payloadEnd

theorem Handed.after {alignment : Nat} (hfirst : Exchange none none old mid)
    (hrest : Handed alignment size ptr mid new) : Handed alignment size ptr old new :=
  { hrest with exchange := hfirst.after hrest.exchange }

/-! Handing out -/

theorem usedStarts_modifyLast (bump : Nat) (before : List Region) :
    usedStarts (before.modifyLast (Region.extend bump)) = usedStarts before := by
  rcases List.eq_nil_or_concat' before with rfl | ⟨pre, p, rfl⟩
  · rfl
  · have hlast : usedStarts [p.extend bump] = usedStarts [p] := by
      by_cases hused : p.kind = .used
      · rw [usedStarts_cons_used hused, usedStarts_cons_used (r := p.extend bump) hused]
        exact rfl
      · rw [usedStarts_cons_other hused, usedStarts_cons_other (r := p.extend bump) hused]
    rw [List.modifyLast_concat, usedStarts_append, usedStarts_append, hlast]

theorem keeps_modifyLast (bump : Nat) (hr : r ∈ before) :
    ∃ s ∈ before.modifyLast (Region.extend bump),
      s.kind = r.kind ∧ s.addr = r.addr ∧ r.size ≤ s.size := by
  rcases List.eq_nil_or_concat' before with rfl | ⟨pre, p, rfl⟩
  · cases hr
  · rw [List.modifyLast_concat]
    rcases List.mem_append.mp hr with hmem | hmem
    · exact ⟨r, List.mem_append_left _ hmem, rfl, rfl, Nat.le_refl _⟩
    · obtain rfl := List.mem_singleton.mp hmem
      exact ⟨r.extend bump, by simp, rfl, rfl, Nat.le_add_right _ _⟩

theorem carve_handed {spot : Spot} (hfree : spot.region.kind = .free)
    (hroom : bump + size + REGION_HEADER_SIZE ≤ spot.region.size) {alignment : Nat}
    (haligned : (spot.region.payloadStart + bump) % alignment = 0) :
    Handed alignment size (carve bump size spot h).1 spot.regions
      (carve bump size spot h).2.regions := by
  obtain ⟨before, r, behind⟩ := spot
  simp only at hfree hroom haligned
  have hptr : (carve bump size ⟨before, r, behind⟩ h).1 = r.payloadStart + bump := by
    rw [carve_ptr]
    simp only [Region.payloadStart]
    omega
  rw [hptr]
  have hnone : r.kind ≠ .used := by simp [hfree]
  -- the region that is handed out, and what of the old one is left behind it
  obtain ⟨used, rest, hregions, hused, hstart, hend, hrest⟩ :
      ∃ (used : Region) (rest : List Region),
      (carve bump size ⟨before, r, behind⟩ h).2.regions =
        before.modifyLast (Region.extend bump) ++ used :: (rest ++ behind) ∧
      used.kind = .used ∧ used.payloadStart = r.payloadStart + bump ∧
      r.payloadStart + bump + size ≤ used.payloadEnd ∧ usedStarts rest = [] := by
    unfold carve
    dsimp only
    split
    · refine ⟨_, [_], rfl, rfl, ?_, ?_, usedStarts_cons_other (by simp)⟩
      · simp only [Region.payloadStart]
        omega
      · simp only [Region.payloadStart, Region.payloadEnd, POINTER_SIZE, REGION_HEADER_SIZE]
        omega
    · refine ⟨_, [], rfl, rfl, ?_, ?_, rfl⟩
      · simp only [Region.payloadStart]
        omega
      · simp only [Region.payloadStart, Region.payloadEnd, POINTER_SIZE, REGION_HEADER_SIZE]
          at hroom ⊢
        omega
  rw [hregions]
  refine ⟨⟨?_, ?_⟩, haligned, ⟨used, by simp, hused, hstart, hend⟩⟩
  · simp only [Spot.regions, usedStarts_append, usedStarts_modifyLast, usedStarts_cons_used hused,
      usedStarts_cons_other hnone, hrest, hstart, Option.toList_none, Option.toList_some,
      List.nil_append]
    exact List.perm_middle
  · intro s hs hkind _
    rcases List.mem_append.mp hs with hmem | hmem
    · obtain ⟨t, ht, hkind', haddr, hsize⟩ := keeps_modifyLast bump hmem
      exact ⟨t, List.mem_append_left _ ht, hkind'.trans hkind, haddr, hsize⟩
    · rcases List.mem_cons.mp hmem with rfl | hmem
      · exact absurd hkind hnone
      · exact ⟨s, by simp [hmem], hkind, rfl, Nat.le_refl _⟩

theorem alignUp_mod (start alignment : Nat) : alignUp start alignment % alignment = 0 :=
  Nat.mul_mod_left _ _

theorem attemptAllocate_handed {alignment : Nat} (hs : Sound h) (hr : r ∈ h.regions)
    (hfree : r.kind = .free)
    (hcall : attemptAllocate r.addr alignment size h = .ok (some ptr, h')) :
    Handed alignment size ptr h.regions h'.regions := by
  obtain ⟨before, behind, hregions⟩ := List.append_of_mem hr
  unfold attemptAllocate at hcall
  rw [hs.spot hregions] at hcall
  dsimp only at hcall
  split at hcall
  · cases hcall
  · split at hcall
    · cases hcall
    · rename_i hroom
      rw [not_or, Nat.not_lt, Nat.not_lt] at hroom
      obtain ⟨hstart, hend⟩ := hroom
      have hlarge : 16 ≤ r.size := hs.laid.size_le r hr
      have hbump : alignUp r.payloadStart alignment - r.payloadStart + size + REGION_HEADER_SIZE ≤
          r.size := by
        simp only [Region.payloadStart, Region.payloadEnd, POINTER_SIZE, REGION_HEADER_SIZE]
          at hstart hend ⊢
        omega
      have haligned : (r.payloadStart + (alignUp r.payloadStart alignment - r.payloadStart)) %
          alignment = 0 := by
        rw [Nat.add_sub_of_le hstart]
        exact alignUp_mod _ _
      have hhanded : Handed alignment size _ (Spot.regions ⟨before, r, behind⟩) _ :=
        carve_handed (h := unlinkFromFreeList r h) hfree hbump haligned
      cases hcall
      rw [hregions]
      exact hhanded

/-- What a search for `size` bytes at `alignment` did. -/
def Lent (alignment size : Nat) (old : List Region) : Option Nat → List Region → Prop
  | none, new => Exchange none none old new
  | some ptr, new => Handed alignment size ptr old new

variable {alignment : Nat} {result : Option Nat}

theorem Lent.after (hfirst : Exchange none none old mid)
    (hrest : Lent alignment size mid result new) : Lent alignment size old result new := by
  cases result with
  | none => exact Exchange.after hfirst hrest
  | some ptr => exact Handed.after hfirst hrest

theorem tryRegions_lent {addrs : List Nat} (hs : Sound h)
    (haddrs : ∀ addr ∈ addrs, ∃ r ∈ h.regions, r.kind = .free ∧ r.addr = addr)
    (hcall : tryRegions alignment size addrs h = .ok (result, h')) :
    Lent alignment size h.regions result h'.regions := by
  induction addrs with
  | nil =>
      cases hcall
      exact Exchange.refl _
  | cons addr rest ih =>
      obtain ⟨r, hr, hfree, rfl⟩ := haddrs addr List.mem_cons_self
      unfold tryRegions at hcall
      split at hcall
      · cases hcall
      · rename_i hattempt
        cases hcall
        exact attemptAllocate_handed hs hr hfree hattempt
      · rename_i hattempt
        obtain rfl := attemptAllocate_none hattempt
        exact ih (fun a ha => haddrs a (List.mem_cons_of_mem _ ha)) hcall

theorem searchBuckets_lent {buckets : List Nat} (hs : Sound h)
    (hbuckets : ∀ i ∈ buckets, i < NUM_FREE_BUCKETS)
    (hcall : searchBuckets alignment size buckets h = .ok (result, h')) :
    Lent alignment size h.regions result h'.regions := by
  induction buckets generalizing h with
  | nil =>
      cases hcall
      exact Exchange.refl _
  | cons i rest ih =>
      have hrest : ∀ j ∈ rest, j < NUM_FREE_BUCKETS := fun j hj =>
        hbuckets j (List.mem_cons_of_mem _ hj)
      unfold searchBuckets at hcall
      split at hcall
      · rename_i hnil
        have hlater := ih (hs.reset (hbuckets i List.mem_cons_self) hnil) hrest hcall
        exact hlater
      · rename_i addr more hbucket
        have hmem : addr ∈ h.freeRegionBuckets i := by simp [hbucket]
        obtain ⟨r, hr, hfree, rfl, rfl⟩ := hs.free_of_mem hmem
        split at hcall
        · cases hcall
        · rename_i hattempt
          cases hcall
          exact attemptAllocate_handed hs hr hfree hattempt
        · rename_i hattempt
          obtain rfl := attemptAllocate_none hattempt
          obtain ⟨before, behind, hregions⟩ := List.append_of_mem hr
          rw [hs.spot hregions] at hcall
          have hlater := ih (hs.defer hregions hfree) hrest hcall
          exact hlater

/-! More memory -/

theorem addMemory_exchange {startPtr len : Nat} {claimed : Claimed} (hs : Sound h)
    (hcall : addMemory startPtr len h = .ok (claimed, h')) :
    Exchange none none h.regions h'.regions := by
  have hstart : ∀ {h'}, startBlock startPtr len h = .ok (claimed, h') →
      Exchange none none h.regions h'.regions := by
    intro h' hblock
    unfold startBlock at hblock
    split at hblock
    · cases hblock
    · cases hblock
      refine .of_used ?_
      simp [linkToFreeList, endSentinel]
  unfold addMemory at hcall
  split at hcall
  · split at hcall
    · cases hcall
    · exact hstart hcall
  · rename_i root older hroots
    split at hcall
    · have hlaid := hs.laid
      rw [hroots] at hlaid
      obtain ⟨before, p, s, hregions, htail⟩ := hlaid.tail
      have hrev : h.regions.reverse = s :: p :: before.reverse := by simp [hregions]
      have hclosed := htail.closed
      unfold extendBlock at hcall
      rw [hrev] at hcall
      dsimp only at hcall
      rw [List.reverse_reverse] at hcall
      split at hcall
      · rename_i hfree
        cases hcall
        refine .of_used ?_
        simp [linkToFreeList, unlinkFromFreeList, endSentinel, hregions, hfree, hclosed]
      · split at hcall
        · cases hcall
        · cases hcall
          refine .of_used ?_
          simp [linkToFreeList, endSentinel, hregions, hclosed, List.filter_cons]
    · exact hstart hcall

theorem sbrk_regions {increment : Int} {growth : Growth}
    (hcall : sbrk increment growth h = .ok (result, h')) (hs : Sound h) :
    Sound h' ∧ h'.regions = h.regions := by
  obtain ⟨pages, rfl, hle, hmax, _⟩ := sbrk_ok hs.pages_le hcall
  exact ⟨hs.grow hle hmax, rfl⟩

theorem claimViaSbrk_exchange {numBytes : Nat} {growth : Growth} {claimed : Option Claimed}
    (hs : Sound h) (hcall : claimViaSbrk numBytes growth h = .ok (claimed, h')) :
    Exchange none none h.regions h'.regions := by
  unfold claimViaSbrk at hcall
  split at hcall
  · cases hcall
  · rename_i hsbrk
    cases hcall
    exact .of_eq (sbrk_regions hsbrk hs).2
  · rename_i hsbrk
    obtain ⟨hs', hregions⟩ := sbrk_regions hsbrk hs
    split at hcall
    · cases hcall
    · rename_i hadd
      cases hcall
      exact (Exchange.of_eq hregions).after (addMemory_exchange hs' hadd)

theorem claimMoreMemory_exchange {numBytes : Nat} {probe growth : Growth}
    {claimed : Option Claimed} (hs : Sound h)
    (hcall : claimMoreMemory numBytes probe growth h = .ok (claimed, h')) :
    Exchange none none h.regions h'.regions := by
  unfold claimMoreMemory at hcall
  split at hcall
  · exact claimViaSbrk_exchange hs hcall
  · split at hcall
    · cases hcall
    · rename_i hsbrk
      obtain ⟨hs', hregions⟩ := sbrk_regions hsbrk hs
      exact (Exchange.of_eq hregions).after (claimViaSbrk_exchange hs' hcall)
    · rename_i hsbrk
      obtain ⟨hs', hregions⟩ := sbrk_regions hsbrk hs
      refine (Exchange.of_eq hregions).after ?_
      split at hcall
      · split at hcall
        · cases hcall
        · rename_i hadd
          cases hcall
          exact addMemory_exchange hs' hadd
      · exact claimViaSbrk_exchange hs' hcall

/-! A request -/

section Request

variable {s t : Attempt} {host : Nat → Growth × Growth} {out : Outcome}

/-- The request that the levels after `s` still have to serve. -/
structure Pending (alignment size : Nat) (old : List Region) (s : Attempt) : Prop where
  sound : Sound s.heap
  alignment_eq : validateAllocAlignment s.alignment = validateAllocAlignment alignment
  size_le : size ≤ s.size
  exchange : Exchange none none old s.heap.regions

/-- How a level goes on that looks for `size` bytes at `alignment`. -/
inductive RoundLent (alignment size : Nat) (old : List Region) :
    Round Attempt (Except Fault Outcome) → Prop where
  | fault {fault : Fault} : RoundLent alignment size old (.done (.error fault))
  | done {out : Outcome} (hlent : Lent alignment size old out.ptr out.heap.regions) :
      RoundLent alignment size old (.done (.ok out))
  | again {t : Attempt} (halignment : t.alignment = alignment) (hsizes : t.size = size)
      (hsound : Sound t.heap) (hexchange : Exchange none none old t.heap.regions) :
      RoundLent alignment size old (.again t)

theorem RoundLent.after {round : Round Attempt (Except Fault Outcome)}
    (hfirst : Exchange none none old mid) (hrest : RoundLent alignment size mid round) :
    RoundLent alignment size old round := by
  cases hrest with
  | fault => exact .fault
  | done hlent => exact .done (hlent.after hfirst)
  | again halignment hsizes hsound hexchange =>
      exact .again halignment hsizes hsound (hfirst.after hexchange)

theorem claimOrRetry_lent (hs : Sound s.heap) :
    RoundLent s.alignment s.size s.heap.regions (claimOrRetry host s) := by
  unfold claimOrRetry
  have hclaims : Claims (s.size + 3 * REGION_SIZE) s.heap
      (claimMoreMemory (s.size + 3 * REGION_SIZE) (host s.claims.length).1
        (host s.claims.length).2 s.heap) := claimMoreMemory_claims hs (Nat.le_add_left _ _)
  dsimp only
  generalize hclaim : claimMoreMemory _ _ _ s.heap = result at hclaims
  cases hclaims with
  | fault => exact .fault
  | grown hsound => exact .again rfl rfl hsound (claimMoreMemory_exchange hs hclaim)
  | @refused pages hle hmax =>
      have hs' : Sound { s.heap with pages := pages } := hs.grow hle hmax
      dsimp only
      split
      · exact .fault
      · rename_i htry
        have hlent := tryRegions_lent hs'
          (fun addr hmem => hs'.largestBucket (List.mem_of_mem_drop hmem)) htry
        exact .done hlent

theorem allocateRound_lent (hs : Sound s.heap) (hpower : isPowerOf2 s.alignment = true)
    (hsize : s.size ≤ MAX_ALLOC_SIZE) :
    RoundLent (validateAllocAlignment s.alignment) (validateAllocSize s.size) s.heap.regions
      (allocateRound host s) := by
  have hrange : s.size ≤ 4294967292 := Nat.le_trans hsize (by decide)
  obtain ⟨_, hsmall, _⟩ := validateAllocSize_spec hrange
  have halignment : 0 < validateAllocAlignment s.alignment :=
    Nat.lt_of_lt_of_le (by decide) (Nat.le_max_right _ _)
  have hbuckets : ∀ i ∈ usedBuckets (computeFreeListBucket (validateAllocSize s.size)) s.heap,
      i < NUM_FREE_BUCKETS := fun i hi => (mem_usedBuckets.mp hi).1
  unfold allocateRound
  rw [if_neg (by simp [hpower]), if_neg (Nat.not_lt.mpr hsize)]
  dsimp only
  have hends : Ends (validateAllocAlignment s.alignment) (validateAllocSize s.size) s.heap
      (searchBuckets _ _ (usedBuckets (computeFreeListBucket (validateAllocSize s.size)) s.heap)
        s.heap) := searchBuckets_ends hs hbuckets halignment hsmall
  split
  · exact .fault
  · rename_i hsearch
    exact .done (searchBuckets_lent hs hbuckets hsearch)
  · rename_i h hsearch
    rw [hsearch] at hends
    cases hends with
    | returned hsearched =>
        have hs' := hsearched.sound
        have hfirst : Exchange none none s.heap.regions h.regions :=
          searchBuckets_lent hs hbuckets hsearch
        refine RoundLent.after hfirst ?_
        have htried : ∀ addr ∈ (largestBucket h).take (numTries h),
            ∃ r ∈ h.regions, r.kind = .free ∧ r.addr = addr :=
          fun addr hmem => hs'.largestBucket (List.mem_of_mem_take hmem)
        have hends' : Ends (validateAllocAlignment s.alignment) (validateAllocSize s.size) h
            (tryRegions _ _ ((largestBucket h).take (numTries h)) h) :=
          tryRegions_ends hs' htried halignment hsmall
        split
        · exact .fault
        · rename_i htry
          exact .done (tryRegions_lent hs' htried htry)
        · rename_i h' htry
          rw [htry] at hends'
          cases hends' with
          | returned hsearched' =>
              have hsecond : Exchange none none h.regions h'.regions :=
                tryRegions_lent hs' htried htry
              have hretry : RoundLent (validateAllocAlignment s.alignment)
                  (validateAllocSize s.size) h'.regions (claimOrRetry host
                    ⟨validateAllocAlignment s.alignment, validateAllocSize s.size, h',
                      s.claims⟩) :=
                @claimOrRetry_lent ⟨_, _, h', s.claims⟩ host hsearched'.sound
              exact hretry.after hsecond

theorem Handed.mono {larger : Nat} (hle : size ≤ larger)
    (h : Handed alignment larger ptr old new) : Handed alignment size ptr old new where
  exchange := h.exchange
  aligned := h.aligned
  backed := by
    obtain ⟨r, hr, hused, hstart, hend⟩ := h.backed
    exact ⟨r, hr, hused, hstart, Nat.le_trans (Nat.add_le_add_left hle ptr) hend⟩

theorem Lent.mono {larger : Nat} (hle : size ≤ larger) (h : Lent alignment larger old result new) :
    Lent alignment size old result new := by
  cases result with
  | none => exact h
  | some ptr => exact Handed.mono hle h

/-- A level returns what it lends, or leaves the request to the next one. -/
theorem Pending.round (hp : Pending alignment size old s) :
    (∀ out, allocateRound host s = .done (.ok out) →
      Lent (validateAllocAlignment alignment) size old out.ptr out.heap.regions) ∧
    ∀ t, allocateRound host s = .again t → Pending alignment size old t := by
  by_cases hvalid : isPowerOf2 s.alignment = true ∧ s.size ≤ MAX_ALLOC_SIZE
  · have hrange : s.size ≤ 4294967292 := Nat.le_trans hvalid.2 (by decide)
    have hle : size ≤ validateAllocSize s.size :=
      Nat.le_trans hp.size_le (validateAllocSize_spec hrange).1
    have hround : RoundLent (validateAllocAlignment s.alignment) (validateAllocSize s.size) old
        (allocateRound host s) :=
      (allocateRound_lent hp.sound hvalid.1 hvalid.2).after hp.exchange
    rw [hp.alignment_eq] at hround
    constructor
    · intro out hdone
      rw [hdone] at hround
      cases hround with
      | done hlent => exact hlent.mono hle
    · intro t hagain
      rw [hagain] at hround
      cases hround with
      | again halignment hsizes hsound hexchange =>
          refine ⟨hsound, ?_, hsizes ▸ hle, hexchange⟩
          rw [halignment, validateAllocAlignment_idem]
  · rw [allocateRound_invalid hvalid]
    constructor
    · rintro out ⟨⟩
      exact hp.exchange
    · rintro t ⟨⟩

theorem allocateMemory_lent {depth : Nat} (hs : Sound h)
    (hcall : allocateMemory host depth alignment size h = some (.ok out)) :
    Lent (validateAllocAlignment alignment) size h.regions out.ptr out.heap.regions := by
  have hreturns : Round.Returns (allocateRound host) ⟨alignment, size, h, []⟩ (.ok out) :=
    ⟨depth, hcall⟩
  have hstart : Pending alignment size h.regions ⟨alignment, size, h, []⟩ :=
    ⟨hs, rfl, Nat.le_refl _, .refl _⟩
  generalize Attempt.mk alignment size h [] = s at hreturns hstart
  induction hreturns using Round.Returns.induction with
  | done hbody => exact hstart.round.1 out hbody
  | again hbody _ ih => exact ih (hstart.round.2 _ hbody)

theorem emmallocMemalign_lent {depth : Nat} (hs : Sound h)
    (hcall : emmallocMemalign host depth alignment size h = some (.ok (result, h'))) :
    Lent (validateAllocAlignment alignment) size h.regions result h'.regions := by
  unfold emmallocMemalign at hcall
  split at hcall
  · cases hcall
  · cases hcall
  · rename_i out hout
    cases hcall
    exact allocateMemory_lent hs hout

end Request

/-! Giving back -/

theorem mergeLeft_used {spot : Spot} :
    ((mergeLeft spot h).1.before.filter fun r => r.kind = .used) =
        spot.before.filter (fun r => r.kind = .used) ∧
      (mergeLeft spot h).1.behind = spot.behind := by
  obtain ⟨before, r, behind⟩ := spot
  unfold mergeLeft
  split
  · exact ⟨rfl, rfl⟩
  · rename_i p hlast
    obtain ⟨pre, rfl⟩ := List.getLast?_eq_some_iff.mp hlast
    split
    · rename_i hfree
      refine ⟨?_, rfl⟩
      simp [hfree]
    · exact ⟨rfl, rfl⟩

theorem mergeRight_used {spot : Spot} :
    (mergeRight spot h).1.before = spot.before ∧
      ((mergeRight spot h).1.behind.filter fun r => r.kind = .used) =
        spot.behind.filter fun r => r.kind = .used := by
  obtain ⟨before, r, behind⟩ := spot
  unfold mergeRight
  cases behind with
  | nil => exact ⟨rfl, rfl⟩
  | cons n behind =>
      by_cases hfree : n.kind = .free
      · simp [hfree]
      · simp [hfree]

/-- A region in use is taken away. -/
theorem Exchange.of_removed (hused : r.kind = .used)
    (hregions : (new.filter fun r => r.kind = .used) =
      (before ++ behind).filter fun r => r.kind = .used) :
    Exchange (some r.payloadStart) none (before ++ r :: behind) new where
  starts := by
    have hstarts : usedStarts new = usedStarts before ++ usedStarts behind := by
      rw [← usedStarts_append]
      unfold usedStarts
      rw [hregions]
    rw [hstarts, usedStarts_append, usedStarts_cons_used hused]
    have hmiddle : (usedStarts before ++ r.payloadStart :: usedStarts behind).Perm
        (r.payloadStart :: (usedStarts before ++ usedStarts behind)) := List.perm_middle
    simpa using hmiddle.symm
  keeps s hs hkind hback := by
    have hne : s ≠ r := fun heq => hback (by rw [heq]; exact rfl)
    have hmem : s ∈ new.filter fun r => r.kind = .used := by
      rw [hregions]
      simp only [List.mem_append, List.mem_cons, hne, false_or] at hs
      simpa [hkind] using hs
    exact ⟨s, List.mem_of_mem_filter hmem, hkind, rfl, Nat.le_refl _⟩

theorem emmallocFree_exchange (hs : Sound h) (hr : r ∈ h.regions) (hused : r.kind = .used) :
    ∃ h', emmallocFree r.payloadStart h = .ok h' ∧
      Exchange (some r.payloadStart) none h.regions h'.regions := by
  obtain ⟨before, behind, hregions⟩ := List.append_of_mem hr
  have haddr : r.payloadStart - POINTER_SIZE = r.addr := Nat.add_sub_cancel _ _
  have hpos : r.payloadStart ≠ 0 := by
    simp only [Region.payloadStart, POINTER_SIZE]
    omega
  unfold emmallocFree
  rw [if_neg hpos, haddr, hs.spot hregions]
  dsimp only
  rw [if_neg (not_not_intro hused)]
  refine ⟨_, rfl, ?_⟩
  rw [hregions]
  refine .of_removed hused ?_
  generalize hleft : mergeLeft ⟨before, r, behind⟩ h = left
  have hl := @mergeLeft_used h ⟨before, r, behind⟩
  rw [hleft] at hl
  obtain ⟨hbefore, hbehind⟩ := hl
  have hr := @mergeRight_used left.2 left.1
  obtain ⟨hbefore', hbehind'⟩ := hr
  simp only [linkToFreeList, List.filter_append, List.filter_cons, reduceCtorEq, decide_false,
    Bool.false_eq_true, if_false, hbefore', hbehind', hbefore, hbehind]

/-! Resizing in place -/

/-- The region of `ptr` was resized to hold `size` bytes. -/
structure Resized (size ptr : Nat) (old new : List Region) : Prop where
  exchange : Exchange (some ptr) (some ptr) old new
  backed : ∃ r ∈ new, r.kind = .used ∧ r.payloadStart = ptr ∧ ptr + size ≤ r.payloadEnd

/-- A region in use is replaced by one at the same place. -/
theorem Resized.of_replaced {rest rest' : List Region} (hused : r.kind = .used)
    (hkind : s.kind = .used) (haddr : s.addr = r.addr) (hsize : size + REGION_HEADER_SIZE ≤ s.size)
    (hrest : (rest'.filter fun r => r.kind = .used) = rest.filter fun r => r.kind = .used) :
    Resized size r.payloadStart (before ++ r :: rest) (before ++ s :: rest') where
  exchange := by
    have hstart : s.payloadStart = r.payloadStart := by
      unfold Region.payloadStart
      rw [haddr]
    have hstarts : usedStarts rest' = usedStarts rest := by
      unfold usedStarts
      rw [hrest]
    constructor
    · simp only [usedStarts_append, usedStarts_cons_used hused, usedStarts_cons_used hkind, hstart,
        hstarts]
      exact List.Perm.refl _
    · intro t ht hkind' hback
      have hne : t ≠ r := fun heq => hback (by rw [heq]; exact rfl)
      simp only [List.mem_append, List.mem_cons, hne, false_or] at ht
      rcases ht with ht | ht
      · exact ⟨t, by simp [ht], hkind', rfl, Nat.le_refl _⟩
      · have hmem : t ∈ rest'.filter fun r => r.kind = .used := by
          rw [hrest]
          simpa [hkind'] using ht
        exact ⟨t, by simp [List.mem_of_mem_filter hmem], hkind', rfl, Nat.le_refl _⟩
  backed := by
    refine ⟨s, by simp, hkind, ?_, ?_⟩
    · unfold Region.payloadStart
      rw [haddr]
    · simp only [Region.payloadStart, Region.payloadEnd, POINTER_SIZE, REGION_HEADER_SIZE]
        at hsize ⊢
      omega

/-- Only a wrapped sum keeps a region in use from being looked at. -/
theorem attemptRegionResize_resized (hs : Sound h) (hr : r ∈ h.regions) (hused : r.kind = .used) :
    attemptRegionResize r.addr (size + REGION_HEADER_SIZE) h = .error (.wrapped r.addr) ∧
        4294967296 ≤ r.addr + size + REGION_HEADER_SIZE + REGION_SIZE ∨
      attemptRegionResize r.addr (size + REGION_HEADER_SIZE) h = .ok (false, h) ∨
      ∃ h', attemptRegionResize r.addr (size + REGION_HEADER_SIZE) h = .ok (true, h') ∧
        Resized size r.payloadStart h.regions h'.regions := by
  obtain ⟨before, behind, hregions⟩ := List.append_of_mem hr
  have hlaid := hs.laid
  rw [hregions] at hlaid
  obtain ⟨_, _, n, post, _, rfl, _, hrn⟩ := hlaid.neighbours (by simp [hused]) (by simp [hused])
  have hjoined : r.addr + r.size = n.addr := hrn.joined (by simp [hused])
  have hn : 16 ≤ n.size := hlaid.size_le n (by simp)
  unfold attemptRegionResize
  rw [hs.spot hregions, hregions]
  dsimp only
  rw [if_neg (not_not_intro hused)]
  by_cases hfree : n.kind = .free
  · have hrest : (post.filter fun r => r.kind = .used) =
        (n :: post).filter fun r => r.kind = .used := by simp [hfree]
    rw [if_pos hfree]
    split
    · rename_i hsum
      split
      · rename_i hover
        refine Or.inl ⟨rfl, ?_⟩
        simp only [Region.stop, wrap, REGION_SIZE, REGION_HEADER_SIZE] at hsum hover ⊢
        omega
      · refine Or.inr (Or.inr ⟨_, rfl, ?_⟩)
        refine Resized.of_replaced hused hused rfl (Nat.le_refl _) ?_
        simp [hfree]
    · split
      · split
        · rename_i hsum hover
          refine Or.inl ⟨rfl, ?_⟩
          simp only [Region.stop, wrap, REGION_SIZE, REGION_HEADER_SIZE] at hsum hover ⊢
          omega
        · rename_i hroom
          refine Or.inr (Or.inr ⟨_, rfl, ?_⟩)
          refine Resized.of_replaced hused hused rfl ?_ hrest
          simp only [Region.stop] at hroom ⊢
          omega
      · exact Or.inr (Or.inl rfl)
  · rw [if_neg hfree]
    split
    · refine Or.inr (Or.inr ⟨_, rfl, ?_⟩)
      refine Resized.of_replaced hused hused rfl (Nat.le_refl _) ?_
      simp
    · by_cases hle : size + REGION_HEADER_SIZE ≤ r.size
      · refine Or.inr (Or.inr ⟨h, by rw [decide_eq_true hle], ?_⟩)
        rw [hregions]
        exact Resized.of_replaced hused hused rfl hle rfl
      · exact Or.inr (Or.inl (by rw [decide_eq_false hle]))

end Emmalloc

end WasixLibc
