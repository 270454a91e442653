/-
How the heap grows.

A block lies behind all blocks before it: it is claimed from the end of the
memory, and only the first may start lower.  A block that was claimed for a
request that is not too large holds it, and its free region is the first of its
bucket.
-/
import WasixLibc.EmmallocSearch
import WasixLibc.MmanTable

namespace WasixLibc

namespace Emmalloc

open Mman (wrap wrapSub toIntptr)

variable {h h' h'' : Heap} {before behind old new : List Region} {r : Region}
variable {root : RootRegion} {roots older : List RootRegion} {startPtr endPtr len numBytes : Nat}

/-! Blocks -/

/-- The end sentinel of a block that holds it. -/
theorem endSentinel_addr (hlow : REGION_SIZE ≤ endPtr) (hhigh : endPtr ≤ 4294967296) :
    (endSentinel endPtr).addr + REGION_SIZE = endPtr := by
  simp only [endSentinel, wrapSub, REGION_SIZE] at hlow ⊢
  omega

/-- A new block behind the others. -/
theorem Laid.block {a b c : Region} (h : Laid roots before)
    (habove : ∀ root ∈ roots, root.endPtr ≤ a.addr) (ha : a.kind = .root) (hb : b.kind = .free)
    (hc : c.kind = .sentinel ∧ c.size = REGION_SIZE ∧ c.stop = root.endPtr)
    (hab : a.stop = b.addr) (hbc : b.stop = c.addr)
    (hsize : REGION_SIZE ≤ a.size ∧ REGION_SIZE ≤ b.size) :
    Laid (root :: roots) (before ++ [a, b, c]) where
  follows := by
    rw [List.isChain_append]
    refine ⟨h.follows, List.isChain_cons_cons.mpr ⟨?_, List.isChain_pair.mpr ?_⟩, ?_⟩
    · exact ⟨by simp [ha, hb], fun _ => hab, by simp [ha], by simp [ha]⟩
    · exact ⟨by simp [hb, hc.1], fun _ => hbc, by simp [hb], by simp [hc.1]⟩
    · rintro s hs _ ⟨⟩
      cases roots with
      | nil =>
          rw [h.empty rfl] at hs
          cases hs
      | cons newest older =>
          obtain ⟨t, ht, hkind, _, hstop⟩ := h.last newest rfl
          obtain rfl : t = s := Option.some.inj (Eq.trans (Eq.symm ht) hs)
          exact ⟨by simp [ha, hkind], fun hne => absurd hkind hne,
            fun _ => Nat.le_trans (Nat.le_of_eq hstop) (habove newest (by simp)), by simp [hkind]⟩
  size_le r hr := by
    rcases List.mem_append.mp hr with hr | hr
    · exact h.size_le r hr
    · simp only [List.mem_cons, List.not_mem_nil, or_false] at hr
      rcases hr with rfl | rfl | rfl
      · exact hsize.1
      · exact hsize.2
      · exact Nat.le_of_eq hc.2.1.symm
  empty hroots := by simp at hroots
  first r hr := by
    cases before with
    | nil =>
        obtain rfl := Option.some.inj hr
        exact ha
    | cons s before => exact h.first r hr
  last newest hnewest := by
    obtain rfl := Option.some.inj hnewest
    exact ⟨c, by simp, hc⟩

/-- `p` and `s` are the last two regions of the block of `root`. -/
structure Tail (root : RootRegion) (p s : Region) : Prop where
  joined : p.addr + p.size = s.addr
  inner : p.kind ≠ .sentinel
  closed : s.kind = .sentinel
  stop_eq : s.addr + REGION_SIZE = root.endPtr

theorem Laid.tail {regions : List Region} (h : Laid (root :: older) regions) :
    ∃ before p s, regions = before ++ [p, s] ∧ Tail root p s := by
  obtain ⟨s, hs, hkind, hsize, hstop⟩ := h.last root rfl
  obtain ⟨init, rfl⟩ := List.getLast?_eq_some_iff.mp hs
  have hne : ∀ p, Follows p s → p.kind ≠ .sentinel := fun p hps hp => by
    simpa [hkind] using hps.root_iff.mpr hp
  rcases List.eq_nil_or_concat' init with rfl | ⟨before, p, rfl⟩
  · have hroot := h.first s rfl
    rw [hkind] at hroot
    cases hroot
  · rw [← List.append_cons] at h
    have hps : Follows p s := (List.isChain_append_cons_cons.mp h.follows).2.1
    rw [Region.stop, hsize] at hstop
    exact ⟨before, p, s, by simp, hps.joined (hne p hps), hne p hps, hkind, hstop⟩

/-- The end of the newest block is replaced. -/
theorem Laid.lengthen {root' : RootRegion} {a a' c : Region}
    (h : Laid (root :: older) (before ++ old)) (hnew : new.IsChain Follows)
    (hsize : ∀ r ∈ new, REGION_SIZE ≤ r.size)
    (hfirst : old.head? = some a ∧ new.head? = some a') (hfront : SameFront a a')
    (hlast : new.getLast? = some c)
    (hc : c.kind = .sentinel ∧ c.size = REGION_SIZE ∧ c.stop = root'.endPtr) :
    Laid (root' :: older) (before ++ new) where
  follows := by
    obtain ⟨hbefore, _, hseam⟩ := List.isChain_append.mp h.follows
    refine List.isChain_append.mpr ⟨hbefore, hnew, fun x hx y hy => ?_⟩
    rw [hfirst.2] at hy
    obtain rfl := Option.some.inj hy
    exact (hseam x hx a hfirst.1).inFront hfront
  size_le r hr := by
    rcases List.mem_append.mp hr with hr | hr
    · exact h.size_le r (List.mem_append_left _ hr)
    · exact hsize r hr
  empty hroots := by simp at hroots
  first r hr := by
    cases before with
    | nil =>
        rw [List.nil_append, hfirst.2] at hr
        obtain rfl := Option.some.inj hr
        exact hfront.root_iff.mpr (h.first a hfirst.1)
    | cons s before => exact h.first r hr
  last newest hnewest := by
    obtain rfl := Option.some.inj hnewest
    refine ⟨c, ?_, hc⟩
    rw [List.getLast?_append, hlast, Option.some_or]
    exact rfl

/-- A free region at the end of the block is made longer. -/
theorem Laid.lengthenFree {root' : RootRegion} {p s c : Region}
    (h : Laid (root :: older) (before ++ [p, s])) (htail : Tail root p s) (hfree : p.kind = .free)
    (hc : c.kind = .sentinel ∧ c.size = REGION_SIZE ∧ c.stop = root'.endPtr)
    (hle : s.addr ≤ c.addr) :
    Laid (root' :: older) (before ++ [{ p with size := c.addr - p.addr }, c]) := by
  have hp : 16 ≤ p.size := h.size_le p (by simp)
  have hjoined := htail.joined
  have hseam : p.addr + (c.addr - p.addr) = c.addr := by omega
  have hfollows : Follows { p with size := c.addr - p.addr } c :=
    ⟨by simp [hc.1, hfree], fun _ => hseam, by simp [hfree], by simp [hc.1]⟩
  refine h.lengthen (List.isChain_pair.mpr hfollows) ?_ ⟨rfl, rfl⟩
    ⟨rfl, Iff.rfl, fun _ => hfree⟩ rfl hc
  simp only [List.mem_cons, List.not_mem_nil, or_false]
  rintro r (rfl | rfl)
  · show 16 ≤ c.addr - p.addr
    omega
  · exact Nat.le_of_eq hc.2.1.symm

/-- A free region takes the place of the end sentinel of the block. -/
theorem Laid.swallow {root' : RootRegion} {p s c : Region}
    (h : Laid (root :: older) (before ++ [p, s])) (htail : Tail root p s) (hused : p.kind ≠ .free)
    (hc : c.kind = .sentinel ∧ c.size = REGION_SIZE ∧ c.stop = root'.endPtr)
    (hle : s.addr + REGION_SIZE ≤ c.addr) :
    Laid (root' :: older) (before ++ [p, ⟨s.addr, c.addr - s.addr, .free⟩, c]) := by
  have hseam : s.addr + (c.addr - s.addr) = c.addr :=
    Nat.add_sub_of_le (Nat.le_of_add_right_le hle)
  have hinner := htail.inner
  have hpf : Follows p ⟨s.addr, c.addr - s.addr, .free⟩ :=
    ⟨by simp [hinner], fun _ => htail.joined, fun hp => absurd hp hinner,
      fun hp => absurd hp hused⟩
  have hfc : Follows ⟨s.addr, c.addr - s.addr, .free⟩ c :=
    ⟨by simp [hc.1], fun _ => hseam, by simp, by simp [hc.1]⟩
  refine h.lengthen (List.isChain_cons_cons.mpr ⟨hpf, List.isChain_pair.mpr hfc⟩) ?_
    ⟨rfl, rfl⟩ ⟨rfl, Iff.rfl, id⟩ rfl hc
  simp only [List.mem_cons, List.not_mem_nil, or_false]
  rintro r (rfl | rfl | rfl)
  · exact h.size_le r (by simp)
  · exact Nat.le_sub_of_add_le' hle
  · exact Nat.le_of_eq hc.2.1.symm

/-- The heap with new blocks and a free region that goes to its bucket. -/
theorem Sound.enter (hs : Sound h) (hsame : SameMemory h h')
    (hlaid : Laid roots (before ++ r :: behind)) (hfree : r.kind = .free)
    (hroots : roots ≠ []) (hwithin : ∀ root ∈ roots, root.endPtr ≤ h.pages * PAGE_SIZE)
    (hbucketed : Bucketed (freeRegions before ++ freeRegions behind) h') :
    Sound (linkToFreeList r
      { h' with listOfAllRegions := roots, regions := before ++ r :: behind }) := by
  obtain ⟨newest, older, rfl⟩ := List.exists_cons_of_ne_nil hroots
  have hpages := hs.pages_le
  have hend := hwithin newest (by simp)
  have hstop := (hlaid.stop_le rfl (r := r) (by simp)).1
  have hbucket : r.bucket < NUM_FREE_BUCKETS := by
    refine Emmalloc.bucket_lt ?_
    simp only [Region.stop, MAX_PAGES, PAGE_SIZE, REGION_HEADER_SIZE] at *
    omega
  have hlinked := hbucketed.link hlaid.free_addr_ne hbucket
  exact {
    aligned := hsame.base_eq.symm ▸ hs.aligned
    base_pos := hsame.base_eq.symm ▸ hs.base_pos
    base_le := hsame.base_eq.symm ▸ hsame.pages_eq.symm ▸ hs.base_le
    pages_le := hsame.pages_eq.symm ▸ hs.pages_le
    laid := hlaid
    within := hsame.pages_eq.symm ▸ hwithin
    bucketed := by
      show Bucketed (freeRegions (before ++ r :: behind)) _
      rw [freeRegions_insert_free hfree]
      exact ⟨hlinked.filed, hlinked.used⟩ }

/-- What entering a block does.  Its free region starts behind the root, or it has
at least all of the bytes. -/
structure Entered (startPtr len : Nat) (h : Heap) (claimed : Claimed) (h' : Heap) : Prop where
  sound : Sound h'
  pages_eq : h'.pages = h.pages
  roots_ne : h'.listOfAllRegions ≠ []
  start_eq : len ≠ 0 → claimed.startPtr = startPtr
  end_eq : claimed.endPtr = claimed.startPtr + len
  end_le : claimed.endPtr ≤ h.pages * PAGE_SIZE
  ready : Ready claimed.region h'
  region : claimed.region.addr = claimed.startPtr + REGION_SIZE ∧
      claimed.region.stop + REGION_SIZE = claimed.endPtr ∨
    len ≤ claimed.region.size

theorem ready_linkToFreeList (hmem : r ∈ h.regions) (hfree : r.kind = .free) :
    Ready r (linkToFreeList r h) := by
  refine ⟨hmem, hfree, ?_⟩
  show ((Function.update h.freeRegionBuckets r.bucket _) r.bucket).head? = some r.addr
  rw [Function.update_self]
  exact rfl

/-- The blocks `roots` end with the `len` bytes from `startPtr` on. -/
theorem Sound.entered (hs : Sound h) (hsame : SameMemory h h')
    (hlaid : Laid (root :: roots) (before ++ r :: behind)) (hfree : r.kind = .free)
    (hroot : root.endPtr = startPtr + len) (hend : startPtr + len ≤ h.pages * PAGE_SIZE)
    (hwithin : ∀ root ∈ roots, root.endPtr ≤ h.pages * PAGE_SIZE)
    (hbucketed : Bucketed (freeRegions before ++ freeRegions behind) h')
    (hregion : r.addr = startPtr + REGION_SIZE ∧ r.stop + REGION_SIZE = startPtr + len ∨
      len ≤ r.size) :
    Entered startPtr len h ⟨startPtr, startPtr + len, r⟩ (linkToFreeList r
      { h' with listOfAllRegions := root :: roots, regions := before ++ r :: behind }) where
  sound := hs.enter hsame hlaid hfree (by simp)
    (List.forall_mem_cons.mpr ⟨hroot ▸ hend, hwithin⟩) hbucketed
  pages_eq := hsame.pages_eq
  roots_ne := List.cons_ne_nil _ _
  start_eq _ := rfl
  end_eq := rfl
  end_le := hend
  ready := ready_linkToFreeList (by simp) hfree
  region := hregion

theorem startBlock_entered (hs : Sound h)
    (habove : len ≠ 0 → ∀ root ∈ h.listOfAllRegions, root.endPtr ≤ startPtr)
    (hend : startPtr + len ≤ h.pages * PAGE_SIZE) :
    startBlock startPtr len h = .error .wild ∧ len < 3 * REGION_SIZE ∨
      ∃ claimed h', startBlock startPtr len h = .ok (claimed, h') ∧
        Entered startPtr len h claimed h' := by
  unfold startBlock
  split
  · rename_i hlen
    exact Or.inl ⟨rfl, hlen⟩
  · rename_i hlen
    refine Or.inr ⟨_, _, rfl, ?_⟩
    have hpages := hs.pages_le
    simp only [REGION_SIZE, MAX_PAGES, PAGE_SIZE] at hlen hpages hend
    have hlast : (endSentinel (startPtr + len)).addr + 16 = startPtr + len :=
      endSentinel_addr (by simp only [REGION_SIZE]; omega) (by omega)
    set sentinel := endSentinel (startPtr + len)
    set first : Region := ⟨startPtr, REGION_SIZE, .root⟩
    set free : Region := ⟨first.stop, sentinel.addr - first.stop, .free⟩
    have hfirst : first.stop = startPtr + 16 := rfl
    have hseam : free.stop = sentinel.addr := by
      show first.stop + (sentinel.addr - first.stop) = sentinel.addr
      omega
    have hsize : REGION_SIZE ≤ free.size := by
      show 16 ≤ sentinel.addr - first.stop
      omega
    have hlaid : Laid (⟨startPtr, startPtr + len⟩ :: h.listOfAllRegions)
        (h.regions ++ [first, free, sentinel]) :=
      hs.laid.block (habove (by omega)) rfl rfl ⟨rfl, rfl, hlast⟩ rfl hseam
        ⟨Nat.le_refl _, hsize⟩
    have hbucketed : Bucketed (freeRegions (h.regions ++ [first]) ++ freeRegions [sentinel]) h := by
      have hnone : freeRegions (h.regions ++ [first]) ++ freeRegions [sentinel] =
          freeRegions h.regions := by
        simp [freeRegions, first, sentinel, endSentinel]
      exact hnone ▸ hs.bucketed
    rw [List.append_cons] at hlaid ⊢
    exact hs.entered (SameMemory.refl h) hlaid rfl rfl hend hs.within hbucketed
      (Or.inl ⟨rfl, hseam ▸ hlast⟩)

/-- The end sentinel of a block that has become longer. -/
theorem Sound.lengthened_addr {p s : Region} (hs : Sound h) (htail : Tail root p s)
    (hend : root.endPtr + len ≤ h.pages * PAGE_SIZE) :
    (endSentinel (root.endPtr + len)).addr + REGION_SIZE = root.endPtr + len ∧
      (endSentinel (root.endPtr + len)).addr = s.addr + len := by
  have hpages := hs.pages_le
  have hstop := htail.stop_eq
  simp only [REGION_SIZE, MAX_PAGES, PAGE_SIZE] at hpages hend hstop
  have hlast : (endSentinel (root.endPtr + len)).addr + 16 = root.endPtr + len :=
    endSentinel_addr (by simp only [REGION_SIZE]; omega) (by omega)
  exact ⟨hlast, by omega⟩

theorem lengthenFree_entered {p s : Region} (hs : Sound h)
    (hroots : h.listOfAllRegions = root :: older) (hregions : h.regions = before ++ [p, s])
    (htail : Tail root p s) (hfree : p.kind = .free)
    (hend : root.endPtr + len ≤ h.pages * PAGE_SIZE) :
    let sentinel := endSentinel (root.endPtr + len)
    let free := { p with size := sentinel.addr - p.addr }
    Entered root.endPtr len h ⟨root.endPtr, root.endPtr + len, free⟩ (linkToFreeList free
      { unlinkFromFreeList p h with
        listOfAllRegions := { root with endPtr := root.endPtr + len } :: older
        regions := before ++ [free, sentinel] }) := by
  intro sentinel free
  have hlaid := hs.laid
  have hbucketed := hs.bucketed
  have hwithin := hs.within
  rw [hroots] at hlaid hwithin
  rw [hregions] at hlaid hbucketed
  obtain ⟨hlast, hmore⟩ : sentinel.addr + REGION_SIZE = root.endPtr + len ∧
      sentinel.addr = s.addr + len := hs.lengthened_addr htail hend
  have hlaid' : Laid ({ root with endPtr := root.endPtr + len } :: older)
      (before ++ [free, sentinel]) :=
    hlaid.lengthenFree htail hfree ⟨rfl, rfl, hlast⟩ (hmore ▸ Nat.le_add_right _ _)
  have hlarge : len ≤ free.size := by
    show len ≤ sentinel.addr - p.addr
    have hjoined := htail.joined
    omega
  rw [freeRegions_insert_free hfree] at hbucketed
  have hunlinked := hbucketed.unlink hlaid.free_addr_ne
  have hrest : freeRegions [s] = freeRegions [sentinel] := by
    simp [freeRegions, htail.closed, sentinel, endSentinel]
  rw [hrest] at hunlinked
  exact hs.entered ⟨rfl, rfl, rfl⟩ hlaid' hfree rfl hend
    (fun root hroot => hwithin root (by simp [hroot])) hunlinked (Or.inr hlarge)

theorem swallow_entered {p s : Region} (hs : Sound h)
    (hroots : h.listOfAllRegions = root :: older) (hregions : h.regions = before ++ [p, s])
    (htail : Tail root p s) (hused : p.kind ≠ .free) (hlen : REGION_SIZE ≤ len)
    (hend : root.endPtr + len ≤ h.pages * PAGE_SIZE) :
    let sentinel := endSentinel (root.endPtr + len)
    let free : Region := ⟨s.addr, sentinel.addr - s.addr, .free⟩
    Entered root.endPtr len h ⟨root.endPtr, root.endPtr + len, free⟩ (linkToFreeList free
      { h with
        listOfAllRegions := { root with endPtr := root.endPtr + len } :: older
        regions := before ++ [p, free, sentinel] }) := by
  intro sentinel free
  have hlaid := hs.laid
  have hbucketed := hs.bucketed
  have hwithin := hs.within
  rw [hroots] at hlaid hwithin
  rw [hregions] at hlaid hbucketed
  obtain ⟨hlast, hmore⟩ : sentinel.addr + REGION_SIZE = root.endPtr + len ∧
      sentinel.addr = s.addr + len := hs.lengthened_addr htail hend
  have hlaid' : Laid ({ root with endPtr := root.endPtr + len } :: older)
      (before ++ [p, free, sentinel]) :=
    hlaid.swallow htail hused ⟨rfl, rfl, hlast⟩ (hmore ▸ Nat.add_le_add_left hlen _)
  have hlarge : len ≤ free.size := by
    show len ≤ sentinel.addr - s.addr
    omega
  have hrest : freeRegions (before ++ [p, s]) =
      freeRegions (before ++ [p]) ++ freeRegions [sentinel] := by
    simp [freeRegions, htail.closed, List.filter_cons, sentinel, endSentinel]
  rw [hrest] at hbucketed
  rw [List.append_cons] at hlaid' ⊢
  exact hs.entered (SameMemory.refl h) hlaid' rfl rfl hend
    (fun root hroot => hwithin root (by simp [hroot])) hbucketed (Or.inr hlarge)

theorem extendBlock_entered (hs : Sound h) (hroots : h.listOfAllRegions = root :: older)
    (hend : root.endPtr + len ≤ h.pages * PAGE_SIZE) :
    extendBlock root len older h = .error .wild ∧ len < REGION_SIZE ∨
      ∃ claimed h', extendBlock root len older h = .ok (claimed, h') ∧
        Entered root.endPtr len h claimed h' := by
  have hlaid := hs.laid
  rw [hroots] at hlaid
  obtain ⟨before, p, s, hregions, htail⟩ := hlaid.tail
  have hrev : h.regions.reverse = s :: p :: before.reverse := by simp [hregions]
  unfold extendBlock
  rw [hrev]
  dsimp only
  rw [List.reverse_reverse]
  split
  · rename_i hfree
    exact Or.inr ⟨_, _, rfl, lengthenFree_entered hs hroots hregions htail hfree hend⟩
  · rename_i hused
    split
    · rename_i hlen
      exact Or.inl ⟨rfl, hlen⟩
    · rename_i hlen
      exact Or.inr ⟨_, _, rfl,
        swallow_entered hs hroots hregions htail hused (Nat.not_lt.mp hlen) hend⟩

theorem addMemory_entered (hs : Sound h)
    (habove : len ≠ 0 → 0 < startPtr ∧ ∀ root ∈ h.listOfAllRegions, root.endPtr ≤ startPtr)
    (hend : startPtr + len ≤ h.pages * PAGE_SIZE) :
    addMemory startPtr len h = .error .wild ∧ len < 3 * REGION_SIZE ∨
      ∃ claimed h', addMemory startPtr len h = .ok (claimed, h') ∧
        Entered startPtr len h claimed h' := by
  have hstart := startBlock_entered hs (fun hlen => (habove hlen).2) hend
  unfold addMemory
  split
  · split
    · rename_i hzero
      refine Or.inl ⟨rfl, ?_⟩
      by_cases hlen : len = 0
      · subst hlen
        decide
      · exact absurd hzero (Nat.ne_of_gt (habove hlen).1)
    · exact hstart
  · rename_i root older hroots
    have hroot : root ∈ h.listOfAllRegions := by simp [hroots]
    split
    · rename_i hsame
      by_cases hlen : len = 0
      · subst hlen
        have hwithin : root.endPtr + 0 ≤ h.pages * PAGE_SIZE := hs.within root hroot
        rcases extendBlock_entered hs hroots hwithin with
          ⟨hcall, _⟩ | ⟨claimed, h', hcall, hentered⟩
        · exact Or.inl ⟨hcall, by decide⟩
        · exact Or.inr ⟨claimed, h', hcall, { hentered with start_eq := nofun }⟩
      · have hle := (habove hlen).2 root hroot
        have hmod : wrap root.endPtr ≤ root.endPtr := Nat.mod_le _ _
        obtain rfl : startPtr = root.endPtr := by omega
        rcases extendBlock_entered hs hroots hend with ⟨hcall, hshort⟩ | hentered
        · refine Or.inl ⟨hcall, ?_⟩
          simp only [REGION_SIZE] at hshort ⊢
          omega
        · exact Or.inr hentered
    · exact hstart

/-! Pages -/

variable {growth probe : Growth} {increment : Int} {ptr : Option Nat}

theorem Sound.grow {pages : Nat} (hs : Sound h) (hle : h.pages ≤ pages) (hmax : pages ≤ MAX_PAGES) :
    Sound { h with pages := pages } where
  aligned := hs.aligned
  base_pos := hs.base_pos
  base_le := Nat.le_trans hs.base_le (Nat.mul_le_mul_right _ hle)
  pages_le := hmax
  laid := hs.laid
  within root hroot := Nat.le_trans (hs.within root hroot) (Nat.mul_le_mul_right _ hle)
  bucketed := ⟨hs.bucketed.filed, hs.bucketed.used⟩

/-- What `sbrk` returns is the end of the memory that it grows, or that of all
memory. -/
theorem sbrk_ok (hpages : h.pages ≤ MAX_PAGES)
    (hcall : sbrk increment growth h = .ok (ptr, h')) :
    ∃ pages, h' = { h with pages := pages } ∧ h.pages ≤ pages ∧ pages ≤ MAX_PAGES ∧
      ∀ p ∈ ptr, increment = 0 ∧ p = wrap (pages * PAGE_SIZE) ∨
        ∃ old, h.pages ≤ old ∧ p = old * PAGE_SIZE ∧ 0 < increment ∧
          p + increment.toNat = pages * PAGE_SIZE := by
  have hothers : h.pages ≤ (takePages growth.others h).pages :=
    Nat.le_min.mpr ⟨hpages, Nat.le_add_right _ _⟩
  have hlimit : (takePages growth.others h).pages ≤ MAX_PAGES := Nat.min_le_left _ _
  unfold sbrk at hcall
  dsimp only at hcall
  split at hcall
  · rename_i hzero
    cases hcall
    exact ⟨_, rfl, hothers, hlimit, fun p hp => Or.inl ⟨hzero, (Option.some.inj hp).symm⟩⟩
  · split at hcall
    · cases hcall
    · split at hcall
      · cases hcall
      · rename_i hmod hneg
        split at hcall
        · cases hcall
          exact ⟨_, rfl, hothers, hlimit, nofun⟩
        · rename_i old h'' hgrow
          unfold memoryGrow at hgrow
          split at hgrow
          · cases hgrow
          · rename_i hroom
            cases hgrow
            cases hcall
            simp only [Bool.or_eq_true, decide_eq_true_eq, not_or, Nat.not_lt] at hroom
            refine ⟨_, rfl, Nat.le_trans hothers (Nat.le_add_right _ _), hroom.2, ?_⟩
            rintro p ⟨⟩
            refine Or.inr ⟨_, hothers, rfl, by omega, ?_⟩
            rw [Nat.add_mul]
            congr 1
            simp only [PAGE_SIZE] at hmod ⊢
            omega

theorem sbrk_fault {fault : Fault} (hcall : sbrk increment growth h = .error fault) :
    increment % PAGE_SIZE ≠ 0 ∨ increment < 0 := by
  unfold sbrk at hcall
  dsimp only at hcall
  split at hcall
  · cases hcall
  · split at hcall
    · rename_i hmod
      exact Or.inl hmod
    · split at hcall
      · rename_i hneg
        exact Or.inr hneg
      · split at hcall
        · cases hcall
        · cases hcall

/-! More memory for a request -/

/-- How often the heap can grow. -/
def Heap.unclaimed (h : Heap) : Nat :=
  MAX_PAGES - h.pages + if h.listOfAllRegions = [] then 1 else 0

/-- Sizes up to here are still positive after they are rounded up to pages. -/
abbrev MAX_CLAIM_SIZE : Nat := 0x7FFF0000

/-- A block with `numBytes` bytes was added. -/
structure Grown (numBytes : Nat) (h : Heap) (claimed : Claimed) (h' : Heap) : Prop where
  ready : Ready claimed.region h'
  progress : h'.unclaimed < h.unclaimed
  apart : ∀ root ∈ h.listOfAllRegions, root.endPtr ≤ claimed.startPtr
  large : claimed.startPtr + numBytes ≤ claimed.endPtr
  end_le : claimed.endPtr ≤ 4294967296
  aligned : claimed.startPtr % MALLOC_ALIGNMENT = 0 ∧ claimed.endPtr % MALLOC_ALIGNMENT = 0
  region : claimed.region.addr = claimed.startPtr + REGION_SIZE ∧
      claimed.region.stop + REGION_SIZE = claimed.endPtr ∨
    numBytes ≤ claimed.region.size

/-- What `claim_more_memory` ends with. -/
inductive Claims (numBytes : Nat) (h : Heap) : Except Fault (Option Claimed × Heap) → Prop where
  | fault {fault : Fault} (hlarge : MAX_CLAIM_SIZE < numBytes) : Claims numBytes h (.error fault)
  | refused {pages : Nat} (hle : h.pages ≤ pages) (hmax : pages ≤ MAX_PAGES) :
      Claims numBytes h (.ok (none, { h with pages := pages }))
  | grown {claimed : Claimed} {h' : Heap} (hsound : Sound h')
      (hgrown : numBytes ≤ MAX_CLAIM_SIZE → Grown numBytes h claimed h') :
      Claims numBytes h (.ok (some claimed, h'))

/-- A block behind all others, in a memory that has grown or was not used yet. -/
theorem Entered.grown {claimed : Claimed} (hentered : Entered startPtr len h' claimed h'')
    (hpages : h'.pages ≤ MAX_PAGES) (hpos : 0 < numBytes) (hlen : numBytes ≤ len)
    (habove : ∀ root ∈ h.listOfAllRegions, root.endPtr ≤ startPtr)
    (haligned : startPtr % MALLOC_ALIGNMENT = 0 ∧ len % MALLOC_ALIGNMENT = 0)
    (hprogress : h.pages < h'.pages ∨ h.pages ≤ h'.pages ∧ h.listOfAllRegions = []) :
    Grown numBytes h claimed h'' := by
  have hstart := hentered.start_eq (by omega)
  have hend := hentered.end_eq
  have hle := hentered.end_le
  simp only [MAX_PAGES, PAGE_SIZE, MALLOC_ALIGNMENT] at hpages hle haligned
  exact {
    ready := hentered.ready
    progress := by
      unfold Heap.unclaimed
      rw [if_neg hentered.roots_ne, hentered.pages_eq]
      simp only [MAX_PAGES]
      rcases hprogress with hlt | ⟨hle, hnil⟩
      · omega
      · rw [if_pos hnil]
        omega
    apart := hstart ▸ habove
    large := by omega
    end_le := by omega
    aligned := by
      simp only [MALLOC_ALIGNMENT]
      omega
    region := hentered.region.imp_right (Nat.le_trans hlen) }

theorem toIntptr_eq (hlen : len < 4294967296) :
    toIntptr len = len ∧ len < 2147483648 ∨ toIntptr len < 0 ∧ 2147483648 ≤ len := by
  unfold toIntptr
  split <;> omega

/-- The bytes that a request is rounded up to. -/
structure Rounded (numBytes len : Nat) : Prop where
  mod_eq : len % PAGE_SIZE = 0
  lt : len < 4294967296
  large : numBytes ≤ MAX_CLAIM_SIZE → numBytes ≤ len ∧ len < 2147483648

theorem rounded_pageCeil (numBytes : Nat) : Rounded numBytes (pageCeil numBytes) := by
  constructor <;> simp only [pageCeil, wrap, PAGE_SIZE, MAX_CLAIM_SIZE] <;> omega

theorem claimViaSbrk_claims (hs : Sound h) (hround : Rounded numBytes len) (hpos : 0 < numBytes) :
    Claims numBytes h (claimViaSbrk len growth h) := by
  have hpages := hs.pages_le
  have hbase := hs.base_le
  have hstart := hs.base_pos
  obtain ⟨hmod, hlt, hlarge⟩ := hround
  simp only [PAGE_SIZE] at hmod
  have hint := toIntptr_eq hlt
  unfold claimViaSbrk
  split
  · rename_i fault hcall
    refine .fault (Nat.lt_of_not_le fun hle => ?_)
    have hfault := sbrk_fault hcall
    have hlen := hlarge hle
    simp only [PAGE_SIZE] at hfault
    omega
  · rename_i h₁ hcall
    obtain ⟨pages, rfl, hle, hmax, _⟩ := sbrk_ok hpages hcall
    exact .refused hle hmax
  · rename_i startPtr h₁ hcall
    obtain ⟨pages, rfl, hle, hmax, hptr⟩ := sbrk_ok hpages hcall
    have hend : startPtr + len ≤ pages * PAGE_SIZE := by
      rcases hptr startPtr rfl with ⟨hzero, rfl⟩ | ⟨old, hold, rfl, hpositive, hsum⟩
      · have hle : wrap (pages * PAGE_SIZE) ≤ pages * PAGE_SIZE := Nat.mod_le _ _
        omega
      · omega
    have hstart : len ≠ 0 → h.pages < pages ∧ startPtr % 65536 = 0 ∧
        h.pages * PAGE_SIZE ≤ startPtr := by
      intro hlen
      rcases hptr startPtr rfl with ⟨hzero, _⟩ | ⟨old, hold, rfl, hpositive, hsum⟩
      · omega
      · simp only [PAGE_SIZE] at hsum ⊢
        omega
    have habove : len ≠ 0 → 0 < startPtr ∧
        ∀ root ∈ h.listOfAllRegions, root.endPtr ≤ startPtr := by
      intro hlen
      obtain ⟨_, _, hlow⟩ := hstart hlen
      exact ⟨by omega, fun root hroot => Nat.le_trans (hs.within root hroot) hlow⟩
    rcases addMemory_entered (hs.grow hle hmax) habove hend with
      ⟨hwild, hshort⟩ | ⟨claimed, h', hadded, hentered⟩
    · rw [hwild]
      refine .fault (Nat.lt_of_not_le fun hle => ?_)
      have hlen := hlarge hle
      simp only [REGION_SIZE] at hshort
      omega
    · rw [hadded]
      refine .grown hentered.sound fun hle => ?_
      obtain ⟨hlen, _⟩ := hlarge hle
      obtain ⟨hmore, hpage, _⟩ := hstart (by omega)
      exact hentered.grown hmax (by omega) hlen (habove (by omega)).2
        (by simp only [MALLOC_ALIGNMENT]; omega) (Or.inl hmore)

theorem Claims.after {pages : Nat} {result : Except Fault (Option Claimed × Heap)}
    (hclaims : Claims numBytes { h with pages := pages } result) (hle : h.pages ≤ pages) :
    Claims numBytes h result := by
  cases hclaims with
  | fault hlarge => exact .fault hlarge
  | refused hle' hmax => exact .refused (Nat.le_trans hle hle') hmax
  | grown hsound hgrown =>
      refine .grown hsound fun hnum => ?_
      have hbefore := hgrown hnum
      refine { hbefore with progress := Nat.lt_of_lt_of_le hbefore.progress ?_ }
      exact Nat.add_le_add_right (Nat.sub_le_sub_left hle _) _

/-- The bytes from the start of the heap to the end of the memory. -/
theorem initial_len {heapEnd : Nat} (hs : Sound h) (hend : heapEnd = wrap (h.pages * PAGE_SIZE)) :
    h.heapBase + wrapSub heapEnd h.heapBase = h.pages * PAGE_SIZE := by
  have hpages := hs.pages_le
  have hbase := hs.base_le
  have hpos := hs.base_pos
  simp only [wrapSub, wrap, MAX_PAGES, PAGE_SIZE] at *
  omega

theorem claimMoreMemory_claims (hs : Sound h) (hsize : 3 * REGION_SIZE ≤ numBytes) :
    Claims numBytes h (claimMoreMemory numBytes probe growth h) := by
  have hpos : 0 < numBytes := Nat.lt_of_lt_of_le (by decide) hsize
  unfold claimMoreMemory
  split
  · exact claimViaSbrk_claims hs (rounded_pageCeil _) hpos
  · rename_i hnil
    split
    · rename_i fault hcall
      exact absurd (sbrk_fault hcall) (by simp)
    · rename_i h₁ hcall
      obtain ⟨pages, rfl, hle, hmax, _⟩ := sbrk_ok hs.pages_le hcall
      exact (claimViaSbrk_claims (hs.grow hle hmax) (rounded_pageCeil _) hpos).after hle
    · rename_i heapEnd h₁ hcall
      obtain ⟨pages, rfl, hle, hmax, hptr⟩ := sbrk_ok hs.pages_le hcall
      have hs₁ := hs.grow hle hmax
      have hend : heapEnd = wrap (pages * PAGE_SIZE) := by
        rcases hptr heapEnd rfl with ⟨_, heq⟩ | ⟨_, _, _, hpositive, _⟩
        · exact heq
        · exact absurd hpositive (Int.lt_irrefl 0)
      have hlen := initial_len hs₁ hend
      split
      · rename_i hfits
        have hnone : ∀ root ∈ h.listOfAllRegions, root.endPtr ≤ h.heapBase := by simp [hnil]
        rcases addMemory_entered hs₁ (fun _ => ⟨hs.base_pos, hnone⟩) (Nat.le_of_eq hlen) with
          ⟨_, hshort⟩ | ⟨claimed, h', hadded, hentered⟩
        · exact absurd (Nat.le_trans hsize hfits) (Nat.not_le.mpr hshort)
        · dsimp only at hadded ⊢
          rw [hadded]
          refine .grown hentered.sound fun _ => ?_
          have haligned := hs.aligned
          refine hentered.grown hmax ?_ hfits hnone ⟨haligned, ?_⟩ (Or.inr ⟨hle, hnil⟩)
          · simp only [REGION_SIZE] at hsize
            omega
          · simp only [MALLOC_ALIGNMENT, PAGE_SIZE] at haligned hlen ⊢
            omega
      · exact (claimViaSbrk_claims hs₁ (rounded_pageCeil _) hpos).after hle

end Emmalloc

end WasixLibc
