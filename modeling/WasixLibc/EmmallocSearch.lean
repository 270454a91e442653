/-
Looking for a free region with room for a request.

A search ends with memory of a region that was free, or it leaves the regions as
they were; only a wrapped sum breaks it off.  It finds something if the first
region of a bucket that it looks at has room.
-/
import WasixLibc.EmmallocInvariant
import WasixLibc.MmanTable

namespace WasixLibc

namespace Emmalloc

open Mman (wrap)

/-- The payload holds `size` bytes from its first multiple of `alignment` on. -/
def Region.HasRoom (alignment size : Nat) (r : Region) : Prop :=
  r.payloadStart ≤ alignUp r.payloadStart alignment ∧
    alignUp r.payloadStart alignment + size ≤ r.payloadEnd

/-- `ptr` is where a free region of `h` has room. -/
def Placed (alignment size : Nat) (h : Heap) (ptr : Nat) : Prop :=
  ∃ r ∈ h.regions, r.kind = .free ∧ r.HasRoom alignment size ∧
    ptr = alignUp r.payloadStart alignment

structure Searched (alignment size : Nat) (h : Heap) (ptr : Option Nat) (h' : Heap) : Prop where
  sound : Sound h'
  same : SameMemory h h'
  placed : ∀ p ∈ ptr, Placed alignment size h p
  kept : ptr = none → h'.regions = h.regions

/-- The payload would end behind the address space. -/
def Wraps (alignment size : Nat) (fault : Fault) : Prop :=
  ∃ ptr, fault = .wrapped ptr ∧ 4294967296 ≤ ptr + alignment + size

/-- A search that only a wrapped sum breaks off. -/
inductive Ends (alignment size : Nat) (h : Heap) : Except Fault (Option Nat × Heap) → Prop where
  | wrapped {fault : Fault} (hwraps : Wraps alignment size fault) :
      Ends alignment size h (.error fault)
  | returned {ptr : Option Nat} {h' : Heap} (hsearched : Searched alignment size h ptr h') :
      Ends alignment size h (.ok (ptr, h'))

variable {h h' : Heap} {before behind : List Region} {r : Region} {alignment size : Nat}

theorem Searched.nothing (hs : Sound h) : Searched alignment size h none h :=
  ⟨hs, SameMemory.refl h, by simp, fun _ => rfl⟩

theorem Searched.after {h'' : Heap} {ptr : Option Nat}
    (hfirst : Searched alignment size h none h') (hrest : Searched alignment size h' ptr h'') :
    Searched alignment size h ptr h'' where
  sound := hrest.sound
  same := hfirst.same.trans hrest.same
  placed p hp := by
    obtain ⟨r, hr, hplace⟩ := hrest.placed p hp
    exact ⟨r, hfirst.kept rfl ▸ hr, hplace⟩
  kept hnone := (hrest.kept hnone).trans (hfirst.kept rfl)

theorem Ends.after {result : Except Fault (Option Nat × Heap)}
    (hfirst : Searched alignment size h none h') (hrest : Ends alignment size h' result) :
    Ends alignment size h result := by
  cases hrest with
  | wrapped hwraps => exact .wrapped hwraps
  | returned hsearched => exact .returned (hfirst.after hsearched)

/-! One region -/

theorem carve_ptr (bump : Nat) (spot : Spot) :
    (carve bump size spot h).1 = spot.region.addr + bump + POINTER_SIZE := by
  unfold carve
  dsimp only
  split <;> rfl

/-- A sum that is not too large although the payload is. -/
theorem sum_wraps {start stop : Nat} (halignment : 0 < alignment)
    (hsum : wrap (alignUp start alignment + size) ≤ stop)
    (hover : alignUp start alignment < start ∨ stop < alignUp start alignment + size) :
    4294967296 ≤ start + alignment + size := by
  by_contra hlt
  have hfit : alignUp start alignment = (start + (alignment - 1)) / alignment * alignment := by
    unfold alignUp
    rw [Mman.wrap_of_lt (by omega)]
  have hle := Nat.div_mul_le_self (start + (alignment - 1)) alignment
  have hge := Nat.lt_div_mul_add halignment (a := start + (alignment - 1))
  rw [hfit] at hsum hover
  rw [Mman.wrap_of_lt (by omega)] at hsum
  omega

theorem attemptAllocate_ends (hs : Sound h) (hr : r ∈ h.regions) (hfree : r.kind = .free)
    (halignment : 0 < alignment) (hsize : SMALLEST_ALLOCATION_SIZE ≤ size) :
    Ends alignment size h (attemptAllocate r.addr alignment size h) := by
  obtain ⟨before, behind, hregions⟩ := List.append_of_mem hr
  unfold attemptAllocate
  rw [hs.spot hregions]
  dsimp only
  split
  · exact .returned (.nothing hs)
  · rename_i hsum
    split
    · rename_i hover
      exact .wrapped ⟨_, rfl, sum_wraps halignment (Nat.not_lt.mp hsum) hover⟩
    · rename_i hroom
      rw [not_or, Nat.not_lt, Nat.not_lt] at hroom
      have hlarge : 16 ≤ r.size := hs.laid.size_le r hr
      have hbump : alignUp r.payloadStart alignment - r.payloadStart + size + REGION_HEADER_SIZE ≤
          r.size := by
        simp only [Region.payloadStart, Region.payloadEnd, POINTER_SIZE, REGION_HEADER_SIZE]
          at hroom ⊢
        omega
      obtain ⟨hsound, hsame⟩ :=
        @carve_sound h size _ ⟨before, r, behind⟩ hs hregions hfree hsize hbump
      refine .returned ⟨hsound, hsame, ?_, nofun⟩
      rintro _ ⟨⟩
      refine ⟨r, hr, hfree, hroom, ?_⟩
      rw [carve_ptr]
      simp only [Region.payloadStart, POINTER_SIZE] at hroom ⊢
      omega

theorem attemptAllocate_none {addr : Nat} {h'' : Heap}
    (hcall : attemptAllocate addr alignment size h = .ok (none, h'')) : h'' = h := by
  unfold attemptAllocate at hcall
  split at hcall
  · cases hcall
  · dsimp only at hcall
    split at hcall
    · cases hcall
      exact rfl
    · split at hcall
      · cases hcall
      · cases hcall

/-- A region with room is not passed over. -/
theorem attemptAllocate_room (hs : Sound h) (hr : r ∈ h.regions)
    (hroom : r.HasRoom alignment size) :
    ∃ ptr h', attemptAllocate r.addr alignment size h = .ok (some ptr, h') := by
  obtain ⟨before, behind, hregions⟩ := List.append_of_mem hr
  obtain ⟨hstart, hend⟩ := hroom
  have hle : wrap (alignUp r.payloadStart alignment + size) ≤ r.payloadEnd :=
    Nat.le_trans (Nat.mod_le _ _) hend
  unfold attemptAllocate
  rw [hs.spot hregions]
  dsimp only
  rw [if_neg (Nat.not_lt.mpr hle), if_neg (by omega)]
  exact ⟨_, _, rfl⟩

theorem tryRegions_ends {regions : List Nat} (hs : Sound h)
    (hregions : ∀ addr ∈ regions, ∃ r ∈ h.regions, r.kind = .free ∧ r.addr = addr)
    (halignment : 0 < alignment) (hsize : SMALLEST_ALLOCATION_SIZE ≤ size) :
    Ends alignment size h (tryRegions alignment size regions h) := by
  induction regions with
  | nil => exact .returned (.nothing hs)
  | cons addr rest ih =>
      obtain ⟨r, hr, hfree, rfl⟩ := hregions addr List.mem_cons_self
      have hrest := ih fun a ha => hregions a (List.mem_cons_of_mem _ ha)
      have hends : Ends alignment size h (attemptAllocate r.addr alignment size h) :=
        attemptAllocate_ends hs hr hfree halignment hsize
      unfold tryRegions
      generalize hresult : attemptAllocate r.addr alignment size h = result at hends
      cases hends with
      | wrapped hwraps => exact .wrapped hwraps
      | @returned ptr h' hsearched =>
          cases ptr with
          | some ptr => exact .returned hsearched
          | none =>
              obtain rfl := attemptAllocate_none hresult
              exact hrest

/-! The buckets -/

theorem Sound.defer (hs : Sound h) (hregions : h.regions = before ++ r :: behind)
    (hfree : r.kind = .free) :
    Sound (prependToFreeList r r.bucket (unlinkFromFreeList r h)) := by
  have hlaid := hs.laid
  have hbucketed := hs.bucketed
  rw [hregions] at hlaid
  rw [hregions, freeRegions_insert_free hfree] at hbucketed
  refine hs.edit ⟨rfl, rfl, rfl⟩ hs.laid ?_
  show Bucketed (freeRegions h.regions) _
  rw [hregions, freeRegions_insert_free hfree]
  exact hbucketed.defer hlaid.free_addr_ne

theorem Sound.reset {i : Nat} (hs : Sound h) (hi : i < NUM_FREE_BUCKETS)
    (hnil : h.freeRegionBuckets i = []) :
    Sound { h with freeRegionBucketsUsed := h.freeRegionBucketsUsed &&& ~~~bucketBit i } :=
  hs.edit ⟨rfl, rfl, rfl⟩ hs.laid (hs.bucketed.reset hi hnil)

theorem searchBuckets_ends {buckets : List Nat} (hs : Sound h)
    (hbuckets : ∀ i ∈ buckets, i < NUM_FREE_BUCKETS) (halignment : 0 < alignment)
    (hsize : SMALLEST_ALLOCATION_SIZE ≤ size) :
    Ends alignment size h (searchBuckets alignment size buckets h) := by
  induction buckets generalizing h with
  | nil => exact .returned (.nothing hs)
  | cons i rest ih =>
      have hrest : ∀ j ∈ rest, j < NUM_FREE_BUCKETS := fun j hj =>
        hbuckets j (List.mem_cons_of_mem _ hj)
      unfold searchBuckets
      split
      · rename_i hnil
        have hreset := hs.reset (hbuckets i List.mem_cons_self) hnil
        exact Ends.after ⟨hreset, ⟨rfl, rfl, rfl⟩, nofun, fun _ => rfl⟩ (ih hreset hrest)
      · rename_i addr more hbucket
        have hmem : addr ∈ h.freeRegionBuckets i := by simp [hbucket]
        obtain ⟨r, hr, hfree, rfl, rfl⟩ := hs.free_of_mem hmem
        have hends : Ends alignment size h (attemptAllocate r.addr alignment size h) :=
          attemptAllocate_ends hs hr hfree halignment hsize
        generalize hresult : attemptAllocate r.addr alignment size h = result at hends
        cases hends with
        | wrapped hwraps => exact .wrapped hwraps
        | @returned ptr h' hsearched =>
            cases ptr with
            | some ptr => exact .returned hsearched
            | none =>
                obtain rfl := attemptAllocate_none hresult
                obtain ⟨before, behind, hregions⟩ := List.append_of_mem hr
                dsimp only
                rw [hs.spot hregions]
                have hdefer := hs.defer hregions hfree
                exact Ends.after ⟨hdefer, ⟨rfl, rfl, rfl⟩, nofun, fun _ => rfl⟩ (ih hdefer hrest)

theorem mem_usedBuckets {i bucketIndex : Nat} :
    i ∈ usedBuckets bucketIndex h ↔ i < NUM_FREE_BUCKETS ∧ bucketIndex ≤ i ∧
      h.freeRegionBucketsUsed.getLsbD i = true := by
  simp [usedBuckets]

theorem Sound.largestBucket (hs : Sound h) {addr : Nat} (hmem : addr ∈ largestBucket h) :
    ∃ r ∈ h.regions, r.kind = .free ∧ r.addr = addr := by
  unfold Emmalloc.largestBucket at hmem
  split at hmem
  · cases hmem
  · obtain ⟨r, hr, hfree, haddr, _⟩ := hs.free_of_mem hmem
    exact ⟨r, hr, hfree, haddr⟩

/-- `r` is free, and its bucket is tried with it. -/
structure Ready (r : Region) (h : Heap) : Prop where
  mem : r ∈ h.regions
  free : r.kind = .free
  first : (h.freeRegionBuckets r.bucket).head? = some r.addr

theorem Laid.addr_inj {roots : List RootRegion} {regions : List Region} {s : Region}
    (h : Laid roots regions) (hr : r ∈ regions) (hmem : s ∈ regions) (heq : s.addr = r.addr) :
    s = r := by
  obtain ⟨before, behind, rfl⟩ := List.append_of_mem hr
  by_contra hne
  have hother : s ∈ before ++ behind := by simpa [hne] using hmem
  exact h.addr_ne s hother heq

/-- What happens to another bucket does not matter. -/
theorem Ready.defer {s : Region} (hready : Ready r h) (hs : Sound h) (hmem : s ∈ h.regions)
    (hne : r.bucket ≠ s.bucket) :
    Ready r (prependToFreeList s s.bucket (unlinkFromFreeList s h)) where
  mem := hready.mem
  free := hready.free
  first := by
    have haddr : r.addr ≠ s.addr := fun heq =>
      hne (congrArg Region.bucket (hs.laid.addr_inj hmem hready.mem heq))
    have hfirst := hready.first
    show ((Function.update (FiledBins.remove h.freeRegionBuckets s.addr) s.bucket _)
      r.bucket).head? = some r.addr
    rw [Function.update_of_ne hne]
    show ((h.freeRegionBuckets r.bucket).erase s.addr).head? = some r.addr
    cases hbin : h.freeRegionBuckets r.bucket with
    | nil =>
        rw [hbin] at hfirst
        cases hfirst
    | cons addr more =>
        rw [hbin] at hfirst
        obtain rfl := Option.some.inj hfirst
        rw [List.erase_cons_tail (by simpa using haddr)]
        exact rfl

/-- The search does not come back without the region that has room. -/
theorem searchBuckets_ready {buckets : List Nat} (hs : Sound h)
    (hbuckets : ∀ i ∈ buckets, i < NUM_FREE_BUCKETS) (hready : Ready r h)
    (hroom : r.HasRoom alignment size) (hmem : r.bucket ∈ buckets) :
    searchBuckets alignment size buckets h ≠ .ok (none, h') := by
  induction buckets generalizing h with
  | nil => cases hmem
  | cons i rest ih =>
      intro hcall
      have hfirst := hready.first
      have hrest : ∀ j ∈ rest, j < NUM_FREE_BUCKETS := fun j hj =>
        hbuckets j (List.mem_cons_of_mem _ hj)
      unfold searchBuckets at hcall
      split at hcall
      · rename_i hnil
        have hne : r.bucket ≠ i := by
          intro heq
          rw [heq, hnil] at hfirst
          cases hfirst
        have hreset := hs.reset (hbuckets i List.mem_cons_self) hnil
        exact ih hreset hrest ⟨hready.mem, hready.free, hready.first⟩
          ((List.mem_cons.mp hmem).resolve_left hne) hcall
      · rename_i addr more hbucket
        by_cases heq : r.bucket = i
        · subst heq
          rw [hbucket] at hfirst
          obtain rfl := Option.some.inj hfirst
          obtain ⟨ptr, h'', hattempt⟩ := attemptAllocate_room hs hready.mem hroom
          rw [hattempt] at hcall
          cases hcall
        · have haddr : addr ∈ h.freeRegionBuckets i := by simp [hbucket]
          obtain ⟨s, hs', hfree, rfl, rfl⟩ := hs.free_of_mem haddr
          split at hcall
          · cases hcall
          · cases hcall
          · rename_i hattempt
            obtain rfl := attemptAllocate_none hattempt
            obtain ⟨before, behind, hregions⟩ := List.append_of_mem hs'
            rw [hs.spot hregions] at hcall
            exact ih (hs.defer hregions hfree) hrest (hready.defer hs hs' heq)
              ((List.mem_cons.mp hmem).resolve_left heq) hcall

end Emmalloc

end WasixLibc
