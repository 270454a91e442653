/-
What allocating, freeing and resizing keep.

Each is made of a few edits of the regions: the boundary of two regions moves, a
region is divided, a free neighbour is merged, a region is given back.
-/
import Mathlib.Data.List.ModifyLast
import WasixLibc.EmmallocBuckets

namespace WasixLibc

namespace Emmalloc

/-- The invariant of the heap. -/
structure Sound (h : Heap) : Prop where
  aligned : h.heapBase % MALLOC_ALIGNMENT = 0
  base_pos : 0 < h.heapBase
  base_le : h.heapBase ≤ h.pages * PAGE_SIZE
  pages_le : h.pages ≤ MAX_PAGES
  laid : Laid h.listOfAllRegions h.regions
  within : ∀ root ∈ h.listOfAllRegions, root.endPtr ≤ h.pages * PAGE_SIZE
  bucketed : Bucketed (freeRegions h.regions) h

theorem Image.start_sound (image : Image) : Sound image.start where
  aligned := image.aligned
  base_pos := image.base_pos
  base_le := image.base_le
  pages_le := image.pages_le
  laid := laid_nil
  within := by simp [start]
  bucketed := ⟨FiledBins.filed_nil, fun _ hne => absurd rfl hne⟩

/-- Only regions and buckets differ. -/
structure SameMemory (h h' : Heap) : Prop where
  base_eq : h'.heapBase = h.heapBase
  pages_eq : h'.pages = h.pages
  roots_eq : h'.listOfAllRegions = h.listOfAllRegions

theorem SameMemory.refl (h : Heap) : SameMemory h h := ⟨rfl, rfl, rfl⟩

theorem SameMemory.trans {h h' h'' : Heap} (hsame : SameMemory h h') (hsame' : SameMemory h' h'') :
    SameMemory h h'' :=
  ⟨hsame'.base_eq.trans hsame.base_eq, hsame'.pages_eq.trans hsame.pages_eq,
    hsame'.roots_eq.trans hsame.roots_eq⟩

variable {h h' : Heap} {before behind : List Region} {r n p : Region} {size bump : Nat}

theorem Sound.edit (hs : Sound h) (hsame : SameMemory h h')
    (hlaid : Laid h.listOfAllRegions h'.regions)
    (hbucketed : Bucketed (freeRegions h'.regions) h') : Sound h' where
  aligned := hsame.base_eq.symm ▸ hs.aligned
  base_pos := hsame.base_eq.symm ▸ hs.base_pos
  base_le := hsame.base_eq.symm ▸ hsame.pages_eq.symm ▸ hs.base_le
  pages_le := hsame.pages_eq.symm ▸ hs.pages_le
  laid := hsame.roots_eq.symm ▸ hlaid
  within := hsame.roots_eq.symm ▸ hsame.pages_eq.symm ▸ hs.within
  bucketed := hbucketed

/-- Only the sentinel of a block may end with the address space. -/
theorem Sound.stop_le (hs : Sound h) (hr : r ∈ h.regions) : r.stop ≤ 4294967296 ∧
    (r.kind ≠ .sentinel → r.stop + REGION_SIZE ≤ 4294967296) := by
  cases hroots : h.listOfAllRegions with
  | nil =>
      rw [hs.laid.empty hroots] at hr
      cases hr
  | cons root older =>
      have hwithin := hs.within root (by simp [hroots])
      have hpages := hs.pages_le
      have hhead : root ∈ h.listOfAllRegions.head? := by simp [hroots]
      obtain ⟨hle, hlt⟩ := hs.laid.stop_le hhead hr
      simp only [MAX_PAGES, PAGE_SIZE] at hwithin hpages
      exact ⟨by omega, fun hkind => Nat.le_trans (hlt hkind) (by omega)⟩

theorem Sound.bucket_lt (hs : Sound h) (hr : r ∈ h.regions) : r.bucket < NUM_FREE_BUCKETS := by
  have hstop := (hs.stop_le hr).1
  have hsize : 16 ≤ r.size := hs.laid.size_le r hr
  refine Emmalloc.bucket_lt ?_
  unfold Region.stop at hstop
  simp only [REGION_HEADER_SIZE]
  omega

/-- An address in a bucket is that of a free region. -/
theorem Sound.free_of_mem (hs : Sound h) {i addr : Nat} (hmem : addr ∈ h.freeRegionBuckets i) :
    ∃ r ∈ h.regions, r.kind = .free ∧ r.addr = addr ∧ r.bucket = i := by
  obtain ⟨r, hr, haddr, hbucket⟩ := (hs.bucketed.filed.mem_iff i addr).mp hmem
  obtain ⟨hmem', hkind⟩ := mem_freeRegions.mp hr
  exact ⟨r, hmem', hkind, haddr, hbucket⟩

theorem Sound.spot (hs : Sound h) (hregions : h.regions = before ++ r :: behind) :
    h.spot r.addr = some ⟨before, r, behind⟩ := hs.laid.spot hregions

/-! Edits of the regions -/

def Heap.lay (regions : List Region) (h : Heap) : Heap := { h with regions := regions }

theorem Sound.lay (hs : Sound h) {regions : List Region} (hregions : h.regions = regions) :
    Sound (h.lay regions) := by
  rw [← hregions]
  exact hs

/-- Regions that are in use are replaced by others. -/
theorem Sound.relay {old new : List Region} {a a' b b' : Region}
    (hs : Sound (h.lay (before ++ (old ++ behind)))) (hnew : new.IsChain Follows)
    (hsize : ∀ r ∈ new, REGION_SIZE ≤ r.size)
    (hfirst : old.head? = some a ∧ new.head? = some a')
    (hlast : old.getLast? = some b ∧ new.getLast? = some b')
    (hfront : SameFront a a') (hback : SameBack b b')
    (hold : ∀ r ∈ old, r.kind ≠ .free) (hused : ∀ r ∈ new, r.kind ≠ .free) :
    Sound (h.lay (before ++ (new ++ behind))) := by
  have hnone : ∀ regions : List Region, (∀ r ∈ regions, r.kind ≠ .free) →
      freeRegions regions = [] := by
    intro regions hregions
    simpa [freeRegions] using hregions
  refine hs.edit ⟨rfl, rfl, rfl⟩ (hs.laid.splice hnew hsize hfirst hlast hfront hback) ?_
  have hbucketed : Bucketed (freeRegions (before ++ (old ++ behind))) h :=
    ⟨hs.bucketed.filed, hs.bucketed.used⟩
  show Bucketed (freeRegions (before ++ (new ++ behind))) _
  simp only [freeRegions_append, hnone old hold, hnone new hused] at hbucketed ⊢
  exact ⟨hbucketed.filed, hbucketed.used⟩

/-- A free region is put to use. -/
theorem Sound.take (hs : Sound (h.lay (before ++ r :: behind))) (hfree : r.kind = .free) :
    Sound ((unlinkFromFreeList r h).lay (before ++ { r with kind := .used } :: behind)) := by
  have hold : Laid h.listOfAllRegions (before ++ ([r] ++ behind)) := hs.laid
  have hlaid : Laid h.listOfAllRegions (before ++ ([{ r with kind := .used }] ++ behind)) := by
    refine hold.splice (.singleton _) ?_ ⟨rfl, rfl⟩ ⟨rfl, rfl⟩
      ⟨rfl, by simp [hfree], by simp⟩ ⟨rfl, by simp [hfree], by simp, by simp [hfree]⟩
    simpa using hold.size_le r (by simp)
  refine hs.edit ⟨rfl, rfl, rfl⟩ hlaid ?_
  have hbucketed : Bucketed (freeRegions before ++ r :: freeRegions behind) h := by
    rw [← freeRegions_insert_free hfree]
    exact ⟨hs.bucketed.filed, hs.bucketed.used⟩
  have hunlinked := hbucketed.unlink hs.laid.free_addr_ne
  show Bucketed (freeRegions (before ++ { r with kind := .used } :: behind)) _
  rw [freeRegions_insert_used (by simp)]
  exact ⟨hunlinked.filed, hunlinked.used⟩

/-- A used region between used ones is given back. -/
theorem Sound.release (hs : Sound (h.lay (before ++ r :: behind))) (hused : r.kind = .used)
    (hleft : ∀ p ∈ before.getLast?, p.kind ≠ .free)
    (hright : ∀ n ∈ behind.head?, n.kind ≠ .free) :
    Sound (linkToFreeList { r with kind := .free }
      (h.lay (before ++ { r with kind := .free } :: behind))) := by
  obtain ⟨pre, p, n, post, rfl, rfl, hpr, hrn⟩ := hs.laid.neighbours
    (by simp [hused]) (by simp [hused])
  have hp : p.kind ≠ .free := hleft p (by simp)
  have hn : n.kind ≠ .free := hright n rfl
  have hlaid : Laid h.listOfAllRegions
      (pre ++ ([p, { r with kind := .free }, n] ++ post)) := by
    have hold : Laid h.listOfAllRegions (pre ++ ([p, r, n] ++ post)) := by
      simpa [Heap.lay] using hs.laid
    have hsizes := hold.size_le
    refine hold.splice (List.isChain_cons_cons.mpr ⟨?_, List.isChain_pair.mpr ?_⟩) ?_
      ⟨rfl, rfl⟩ ⟨rfl, rfl⟩ ⟨rfl, Iff.rfl, id⟩ (SameBack.refl n)
    · exact ⟨by simpa [hused] using hpr.root_iff, hpr.joined, hpr.parted, fun h => absurd h hp⟩
    · exact ⟨by simpa [hused] using hrn.root_iff, fun _ => hrn.joined (by simp [hused]),
        by simp, fun _ => hn⟩
    · simp only [List.mem_cons, List.not_mem_nil, or_false]
      rintro s (rfl | rfl | rfl)
      · exact hsizes s (by simp)
      · exact hsizes r (by simp)
      · exact hsizes s (by simp)
  have hlaid' : Laid h.listOfAllRegions (pre ++ [p] ++ { r with kind := .free } :: n :: post) := by
    simpa using hlaid
  have hbucketed : Bucketed (freeRegions (pre ++ [p]) ++ freeRegions (n :: post)) h := by
    have hne : r.kind ≠ .free := by simp [hused]
    rw [← freeRegions_insert_used hne]
    exact ⟨hs.bucketed.filed, hs.bucketed.used⟩
  have hbucket : Region.bucket { r with kind := .free } < NUM_FREE_BUCKETS :=
    hs.bucket_lt (r := r) (by simp [Heap.lay])
  have hlinked := hbucketed.link hlaid'.free_addr_ne hbucket
  refine hs.edit ⟨rfl, rfl, rfl⟩ hlaid' ?_
  show Bucketed (freeRegions (pre ++ [p] ++ { r with kind := .free } :: n :: post)) _
  rw [freeRegions_insert_free rfl]
  exact ⟨hlinked.filed, hlinked.used⟩

/-- A used region is divided. -/
theorem Sound.divide (hs : Sound (h.lay (before ++ r :: behind))) (hused : r.kind = .used)
    (hsize : REGION_SIZE ≤ size) (hroom : size + REGION_SIZE ≤ r.size) :
    Sound (h.lay (before ++ { r with size := size } ::
      ⟨r.addr + size, r.size - size, .used⟩ :: behind)) := by
  have hold : Sound (h.lay (before ++ ([r] ++ behind))) := hs
  have hstop : r.addr + size + (r.size - size) = r.addr + r.size := by omega
  refine hold.relay (List.isChain_pair.mpr ?_) ?_ ⟨rfl, rfl⟩ ⟨rfl, rfl⟩ ⟨rfl, Iff.rfl, id⟩
    ⟨hstop, by simp [hused], by simp, by simp [hused]⟩ (by simp [hused]) (by simp [hused])
  · exact ⟨by simp [hused], fun _ => rfl, by simp [hused], by simp [hused]⟩
  · simp only [List.mem_cons, List.not_mem_nil, or_false]
    rintro s (rfl | rfl)
    · exact hsize
    · exact Nat.le_sub_of_add_le (by omega)

/-- Two used regions become one. -/
theorem Sound.join (hs : Sound (h.lay (before ++ r :: n :: behind))) (hused : r.kind = .used)
    (hnext : n.kind = .used) :
    Sound (h.lay (before ++ { r with size := r.size + n.size } :: behind)) := by
  have hold : Sound (h.lay (before ++ ([r, n] ++ behind))) := hs
  have hchain := hold.laid.follows
  simp only [Heap.lay, List.cons_append, List.nil_append] at hchain
  have hrn : Follows r n := (List.isChain_append_cons_cons.mp hchain).2.1
  have hr : REGION_SIZE ≤ r.size := hold.laid.size_le r (by simp [Heap.lay])
  have haddr : r.addr + r.size = n.addr := hrn.joined (by simp [hused])
  have hstop : r.addr + (r.size + n.size) = n.addr + n.size := by omega
  have hchain' : List.IsChain Follows [{ r with size := r.size + n.size }] := .singleton _
  exact hold.relay hchain' (by simpa using Nat.le_add_right_of_le hr)
    ⟨rfl, rfl⟩ ⟨rfl, rfl⟩ ⟨rfl, Iff.rfl, id⟩
    ⟨hstop, by simp [hused, hnext], by simp [hused], by simp [hnext]⟩
    (by simp [hused, hnext]) (by simp [hused])

/-- The start of a used region becomes a part of the region in front of it. -/
theorem Sound.shift (hs : Sound (h.lay (before ++ p :: r :: behind))) (hused : r.kind = .used)
    (hfront : p.kind ≠ .free) (hroom : bump + REGION_SIZE ≤ r.size) :
    Sound (h.lay (before ++ p.extend bump :: ⟨r.addr + bump, r.size - bump, .used⟩ :: behind)) := by
  have hold : Sound (h.lay (before ++ ([p, r] ++ behind))) := hs
  have hchain := hold.laid.follows
  simp only [Heap.lay, List.cons_append, List.nil_append] at hchain
  have hpr : Follows p r := (List.isChain_append_cons_cons.mp hchain).2.1
  have hsentinel : p.kind ≠ .sentinel := fun hkind => by simpa [hused] using hpr.root_iff.mpr hkind
  have hp : REGION_SIZE ≤ p.size := hold.laid.size_le p (by simp [Heap.lay])
  have haddr : p.addr + p.size = r.addr := hpr.joined hsentinel
  have hseam : p.addr + (p.size + bump) = r.addr + bump := by omega
  have hstop : r.addr + bump + (r.size - bump) = r.addr + r.size := by omega
  have hfollows : Follows (p.extend bump) ⟨r.addr + bump, r.size - bump, .used⟩ :=
    ⟨by simpa [Region.extend] using hsentinel, fun _ => hseam,
      fun hkind => absurd hkind hsentinel, fun hkind => absurd hkind hfront⟩
  refine hold.relay (List.isChain_pair.mpr hfollows) ?_ ⟨rfl, rfl⟩ ⟨rfl, rfl⟩
    ⟨rfl, Iff.rfl, id⟩ ⟨hstop, by simp [hused], by simp, by simp [hused]⟩ ?_ ?_
  · simp only [List.mem_cons, List.not_mem_nil, or_false]
    rintro s (rfl | rfl)
    · exact Nat.le_add_right_of_le hp
    · exact Nat.le_sub_of_add_le (by omega)
  · simp [hfront, hused]
  · simp [Region.extend, hfront]

/-- `size` bytes of a used region stay, and the rest becomes a free region. -/
theorem Sound.split (hs : Sound (h.lay (before ++ r :: behind))) (hused : r.kind = .used)
    (hright : ∀ n ∈ behind.head?, n.kind ≠ .free) (hsize : REGION_SIZE ≤ size)
    (hroom : size + REGION_SIZE ≤ r.size) :
    Sound (linkToFreeList ⟨r.addr + size, r.size - size, .free⟩
      (h.lay (before ++ { r with size := size } ::
        ⟨r.addr + size, r.size - size, .free⟩ :: behind))) := by
  have hdivided := hs.divide hused hsize hroom
  rw [List.append_cons] at hdivided ⊢
  exact hdivided.release rfl (by simp [hused]) hright

/-- A free region behind a used one becomes a part of it. -/
theorem Sound.absorb (hs : Sound (h.lay (before ++ r :: n :: behind))) (hused : r.kind = .used)
    (hfree : n.kind = .free) :
    Sound ((unlinkFromFreeList n h).lay
        (before ++ { r with size := r.size + n.size } :: behind)) ∧
      ∀ m ∈ behind.head?, m.kind ≠ .free := by
  have hs' : Sound (h.lay (before ++ [r] ++ n :: behind)) := by
    simpa using hs
  obtain ⟨_, _, m, post, _, rfl, _, hnm⟩ := hs'.laid.neighbours (by simp [hfree]) (by simp [hfree])
  have htaken := hs'.take hfree
  rw [← List.append_cons] at htaken
  exact ⟨htaken.join hused rfl, by simpa using hnm.apart hfree⟩

/-! The operations -/

theorem carve_sound {spot : Spot} (hs : Sound h)
    (hregions : h.regions = spot.before ++ spot.region :: spot.behind)
    (hfree : spot.region.kind = .free) (hsize : SMALLEST_ALLOCATION_SIZE ≤ size)
    (hroom : bump + size + REGION_HEADER_SIZE ≤ spot.region.size) :
    Sound (carve bump size spot (unlinkFromFreeList spot.region h)).2 ∧
      SameMemory h (carve bump size spot (unlinkFromFreeList spot.region h)).2 := by
  obtain ⟨before, r, behind⟩ := spot
  simp only [SMALLEST_ALLOCATION_SIZE, REGION_HEADER_SIZE] at hsize hroom hregions hfree
  have hs' := hs.lay hregions
  obtain ⟨pre, p, n, post, rfl, rfl, hpr, hrn⟩ := hs'.laid.neighbours
    (by simp [hfree]) (by simp [hfree])
  have hp : p.kind ≠ .free := fun hkind => hpr.apart hkind hfree
  have htaken := hs'.take hfree
  rw [← List.append_cons] at htaken
  have hbump : bump + REGION_SIZE ≤ r.size := by
    simp only [REGION_SIZE]
    omega
  have hshifted := htaken.shift rfl hp hbump
  have hbefore : (pre ++ [p]).modifyLast (Region.extend bump) = pre ++ [p.extend bump] :=
    List.modifyLast_concat ..
  unfold carve
  simp only [hbefore]
  rw [List.append_cons] at hshifted
  split
  · rename_i hlarge
    simp only [REGION_SIZE, REGION_HEADER_SIZE] at hlarge
    have hsize' : REGION_SIZE ≤ size + REGION_HEADER_SIZE := by
      simp only [REGION_SIZE, REGION_HEADER_SIZE]
      omega
    have hrest : size + REGION_HEADER_SIZE + REGION_SIZE ≤ r.size - bump := by
      simp only [REGION_SIZE, REGION_HEADER_SIZE]
      omega
    have hsplit := hshifted.split rfl (by simpa using hrn.apart hfree) hsize' hrest
    rw [← Nat.sub_sub] at hsplit
    exact ⟨hsplit, rfl, rfl, rfl⟩
  · exact ⟨hshifted, rfl, rfl, rfl⟩

/-- The regions, with the one in the middle. -/
def Spot.regions (spot : Spot) : List Region := spot.before ++ spot.region :: spot.behind

/-- `h` with the regions of `spot` is sound, and the region in the middle is in use. -/
structure Held (spot : Spot) (h : Heap) : Prop where
  sound : Sound (h.lay spot.regions)
  used : spot.region.kind = .used

variable {spot : Spot}

theorem mergeLeft_held (hheld : Held spot h) :
    Held (mergeLeft spot h).1 (mergeLeft spot h).2 ∧
      (∀ p ∈ (mergeLeft spot h).1.before.getLast?, p.kind ≠ .free) ∧
      SameMemory h (mergeLeft spot h).2 := by
  obtain ⟨before, r, behind⟩ := spot
  obtain ⟨hs, hused⟩ := hheld
  change r.kind = .used at hused
  unfold mergeLeft
  split
  · rename_i hlast
    exact ⟨⟨hs, hused⟩, by simp_all, SameMemory.refl h⟩
  · rename_i p hlast
    obtain ⟨pre, rfl⟩ := List.getLast?_eq_some_iff.mp hlast
    split
    · rename_i hfree
      have hs' : Sound (h.lay (pre ++ p :: r :: behind)) := by
        simpa [Spot.regions] using hs
      obtain ⟨pre', q, _, _, rfl, _, hqp, _⟩ := hs'.laid.neighbours
        (by simp [hfree]) (by simp [hfree])
      have hjoined := (hs'.take hfree).join rfl hused
      rw [Nat.add_comm] at hjoined
      refine ⟨⟨?_, hused⟩, ?_, rfl, rfl, rfl⟩
      · simpa [Spot.regions, hused] using hjoined
      · simpa using fun hq => hqp.apart hq hfree
    · rename_i hused'
      exact ⟨⟨hs, hused⟩, by simpa using hused', SameMemory.refl h⟩

theorem mergeRight_held (hheld : Held spot h) :
    Held (mergeRight spot h).1 (mergeRight spot h).2 ∧
      (mergeRight spot h).1.before = spot.before ∧
      (∀ n ∈ (mergeRight spot h).1.behind.head?, n.kind ≠ .free) ∧
      SameMemory h (mergeRight spot h).2 := by
  obtain ⟨before, r, behind⟩ := spot
  obtain ⟨hs, hused⟩ := hheld
  unfold mergeRight
  cases behind with
  | nil => exact ⟨⟨hs, hused⟩, rfl, by simp, SameMemory.refl h⟩
  | cons n behind =>
      by_cases hfree : n.kind = .free
      · obtain ⟨habsorbed, hright⟩ := hs.absorb hused hfree
        simp only [if_pos hfree]
        exact ⟨⟨habsorbed, hused⟩, trivial, hright, rfl, rfl, rfl⟩
      · simp only [if_neg hfree]
        exact ⟨⟨hs, hused⟩, trivial, by simpa using hfree, SameMemory.refl h⟩

theorem emmallocFree_sound {ptr : Nat} (hs : Sound h) (hcall : emmallocFree ptr h = .ok h') :
    Sound h' ∧ SameMemory h h' := by
  unfold emmallocFree at hcall
  split at hcall
  · cases hcall
    exact ⟨hs, SameMemory.refl h⟩
  · split at hcall
    · cases hcall
    · rename_i spot hspot
      split at hcall
      · cases hcall
      · rename_i hkind
        have hheld : Held spot h := ⟨hs.lay (spot_regions hspot).1, not_not.mp hkind⟩
        obtain ⟨hheld', hleft, hsame⟩ := mergeLeft_held hheld
        obtain ⟨hheld'', hbefore, hright, hsame'⟩ := mergeRight_held hheld'
        cases hcall
        refine ⟨hheld''.sound.release hheld''.used ?_ hright, ?_⟩
        · rw [hbefore]
          exact hleft
        · obtain ⟨hbase, hpages, hroots⟩ := hsame.trans hsame'
          exact ⟨hbase, hpages, hroots⟩

theorem attemptRegionResize_sound {addr : Nat} {fits : Bool} (hs : Sound h)
    (hsize : REGION_SIZE ≤ size) (hcall : attemptRegionResize addr size h = .ok (fits, h')) :
    Sound h' ∧ SameMemory h h' := by
  unfold attemptRegionResize at hcall
  split at hcall
  · rename_i before r n behind hspot
    have hregions : h.regions = before ++ r :: n :: behind := (spot_regions hspot).1
    have hs' : Sound (h.lay (before ++ r :: n :: behind)) := hs.lay hregions
    have hrn : Follows r n := (List.isChain_append_cons_cons.mp hs'.laid.follows).2.1
    split at hcall
    · cases hcall
    · rename_i hkind
      have hused : r.kind = .used := not_not.mp hkind
      have hjoined : r.addr + r.size = n.addr := hrn.joined (by simp [hused])
      split at hcall
      · rename_i hfree
        obtain ⟨habsorbed, hright⟩ := hs'.absorb hused hfree
        dsimp only at hcall
        split at hcall
        · split at hcall
          · cases hcall
          · rename_i hroom
            cases hcall
            simp only [Region.stop, REGION_SIZE] at hroom
            have hroom' : size + REGION_SIZE ≤ r.size + n.size := by
              simp only [REGION_SIZE]
              omega
            have hrest : r.size + n.size - size = n.addr + n.size - (r.addr + size) := by omega
            have hsplit := habsorbed.split hused hright hsize hroom'
            simp only [hrest] at hsplit
            exact ⟨hsplit, rfl, rfl, rfl⟩
        · split at hcall
          · split at hcall
            · cases hcall
            · cases hcall
              exact ⟨habsorbed, rfl, rfl, rfl⟩
          · cases hcall
            exact ⟨hs, SameMemory.refl h⟩
      · rename_i hnext
        dsimp only at hcall
        split at hcall
        · rename_i hroom
          cases hcall
          exact ⟨hs'.split hused (by simpa using hnext) hsize hroom, rfl, rfl, rfl⟩
        · cases hcall
          exact ⟨hs, SameMemory.refl h⟩
  · cases hcall

end Emmalloc

end WasixLibc
