/-
How `mmap` obtains its pages.

`acquirePages` either turns the front of a free region into the new region or
inserts a region over pages fresh from `sbrk`; `Placed` states both at once.
-/
import WasixLibc.MmanInvariant

namespace WasixLibc

namespace Mman

open SpanList ListZipper

/-- The front of the free region `r` makes a region of `len` bytes at `base`,
and `left` is what stays free. -/
inductive Front (base len : Nat) (r : Region) : List Region → Prop
  | whole : r.kind = .rFree → r.base = base → r.len = len → Front base len r []
  | rest : r.kind = .rFree → r.base = base → len < r.len →
      Front base len r [{ r with base := wrap (base + len), len := r.len - len }]

/-- The parts of the state `acquire_pages` leaves alone. -/
structure Placed (st st' : State) (live : Region) : Prop where
  frefs_eq : st'.frefs = st.frefs
  nextPtr_eq : st'.nextPtr = st.nextPtr
  openFds_eq : st'.openFds = st.openFds
  dangling_eq : st'.dangling = st.dangling
  mem_frame : ∀ x, ¬ Holds Region.base Region.limit live x → st'.mem x = st.mem x

/-- The region came out of the table, where it was free, and reads as zero if
free regions are dirty. -/
structure Reused (st st' : State) (idx : Nat) (live : Region) : Prop
    extends Placed st st' live where
  table : ∃ pre r left post, st.regs = pre ++ r :: post ∧
    st'.regs = pre ++ live :: (left ++ post) ∧ idx = pre.length ∧
    Front live.base live.len r left
  grown_eq : st'.grown = st.grown
  calls_eq : st'.calls = st.calls
  zero : (∀ r ∈ st.regs, r.kind = .rFree → r.dirty = true) →
    ∀ x, Holds Region.base Region.limit live x → st'.mem x = 0

/-- The region is new in the table and its pages came from `sbrk`. -/
structure Grown (st st' : State) (idx : Nat) (live : Region) : Prop
    extends Placed st st' live where
  table : ∃ pre post, st.regs = pre ++ post ∧ st'.regs = pre ++ live :: post ∧
    idx = pre.length ∧ pre.length = firstOverlap live.base st.regs
  grown_eq : st'.grown = (live.base, live.len) :: st.grown
  calls_eq : st'.calls = st.calls ++ [.sbrk live.len]
  mem_eq : st'.mem = st.mem
  base_dvd : PAGE ∣ live.base

/-- What growth relies on: the range `sbrk` returned, at the place the search
found, lies between the regions of the table. -/
structure Fits (base len : Nat) (regs : List Region) : Prop where
  limit_le : base + len ≤ 4294967296
  gap : ∀ pre post, regs = pre ++ post → pre.length = firstOverlap base regs →
    (∀ r ∈ pre, r.limit ≤ base) ∧ ∀ r ∈ post, base + len ≤ r.base

theorem toIntptr_toNat {n : Nat} (h : 0 ≤ toIntptr n) (hlt : n < 4294967296) :
    (toIntptr n).toNat = n ∧ toIntptr n = n := by
  unfold toIntptr at *
  split at h
  · rename_i hsmall
    simp [hsmall]
  · omega

theorem pageWrap_dvd (old : Nat) : PAGE ∣ wrap (old * PAGE) := by
  have hbig : PAGE ∣ 4294967296 := ⟨65536, rfl⟩
  exact (Nat.dvd_mod_iff hbig).mpr (Nat.dvd_mul_left _ _)

theorem sbrk_eq_some {increment : Int} {grow : Option Nat} {st st' : State} {base : Nat}
    (hpos : increment ≠ 0) (h : sbrk increment grow st = .ok (some base, st')) :
    0 < increment ∧ (∃ old, grow = some old ∧ base = wrap (old * PAGE)) ∧
      st' = { st.record (.sbrk increment) with
        grown := (base, increment.toNat) :: st.grown } := by
  simp only [sbrk, hpos, ↓reduceIte] at h
  split at h
  · cases h
  · split at h
    · cases h
    · rename_i hneg
      cases grow with
      | none => cases h
      | some old =>
          simp only [Except.ok.injEq, Prod.mk.injEq, Option.some.injEq] at h
          obtain ⟨rfl, rfl⟩ := h
          exact ⟨by omega, ⟨old, rfl, rfl⟩, rfl⟩

theorem sbrk_eq_none {increment : Int} {grow : Option Nat} {st st' : State}
    (hpos : increment ≠ 0) (h : sbrk increment grow st = .ok (none, st')) :
    grow = none ∧ st' = (st.record (.sbrk increment)).setErrno .enomem := by
  simp only [sbrk, hpos, ↓reduceIte] at h
  split at h
  · cases h
  · split at h
    · cases h
    · cases grow with
      | none =>
          simp only [Except.ok.injEq, Prod.mk.injEq, true_and] at h
          exact ⟨rfl, h.symm⟩
      | some old => cases h

theorem clearDirty_eq (dirty : Bool) (base len : Nat) (st : State) :
    clearDirty dirty base len st =
      { st with mem := (clearDirty dirty base len st).mem } := by
  cases dirty <;> rfl

theorem clearDirty_mem_frame {dirty : Bool} {base len x : Nat} (st : State)
    (hx : ¬ (base ≤ x ∧ x < base + len)) :
    (clearDirty dirty base len st).mem x = st.mem x := by
  cases dirty
  · rfl
  · exact if_neg hx

/-- First fit over the free regions. -/
theorem acquirePages_reuse {len i : Nat} (kind : Kind) (prot flags : BitVec 32)
    (grow : Option Nat) {st : State} (hfind : (st.regs.findIdx? fun r =>
      decide (r.kind = .rFree) && decide (len ≤ r.len)) = some i) :
    ∃ base st', acquirePages len kind prot flags grow st = .ok (some i, st') ∧
      Reused st st' i (liveRegion base len kind prot flags) := by
  obtain ⟨hlt, htest, _⟩ := List.findIdx?_eq_some_iff_getElem.mp hfind
  obtain ⟨pre, r, post, hregs, rfl⟩ := exists_boundary hlt
  have hget : st.regs[pre.length]? = some r := by rw [hregs, getElem?_boundary]
  have hr : r.kind = .rFree ∧ len ≤ r.len := by
    have hsame : st.regs[pre.length] = r := by
      rw [List.getElem?_eq_getElem hlt] at hget
      exact Option.some.inj hget
    rw [hsame] at htest
    simpa using htest
  have hcleared : ∀ s : State, ∀ x, (∀ q ∈ st.regs, q.kind = .rFree → q.dirty = true) →
      Holds Region.base Region.limit (liveRegion r.base len kind prot flags) x →
      (clearDirty r.dirty r.base len s).mem x = 0 := by
    intro s x hdirty hx
    rw [hdirty r (by rw [hregs]; simp) hr.1]
    exact if_pos hx
  refine ⟨r.base, ?_⟩
  by_cases hsplit : len < r.len
  · have hcarved : (insertAt pre.length { r with len := len }
        (setAt pre.length
          { r with base := wrap (r.base + len), len := r.len - len } st)).regs =
        pre ++ { r with len := len } ::
          { r with base := wrap (r.base + len), len := r.len - len } :: post := by
      simp only [insertAt, setAt, hregs, set_boundary, insertIdx_boundary]
    simp only [acquirePages, hfind, hget, if_pos hsplit]
    rw [clearDirty_eq]
    refine ⟨_, rfl, ⟨rfl, rfl, rfl, rfl, ?_⟩, ?_, rfl, rfl, fun hdirty x => ?_⟩
    · exact fun x hx => clearDirty_mem_frame _ hx
    · refine ⟨pre, r, _, post, hregs, ?_, rfl, .rest hr.1 rfl hsplit⟩
      simp only [setAt_regs, hcarved, set_boundary]
      rfl
    · exact hcleared _ x hdirty
  · have hlen : r.len = len := Nat.le_antisymm (Nat.le_of_not_lt hsplit) hr.2
    simp only [acquirePages, hfind, hget, if_neg hsplit]
    rw [clearDirty_eq]
    refine ⟨_, rfl, ⟨rfl, rfl, rfl, rfl, ?_⟩, ?_, rfl, rfl, fun hdirty x => ?_⟩
    · exact fun x hx => clearDirty_mem_frame _ hx
    · refine ⟨pre, r, [], post, hregs, ?_, rfl, .whole hr.1 rfl hlen⟩
      simp only [setAt, hregs, set_boundary]
      rfl
    · exact hcleared _ x hdirty

/-- Without a free region that is large enough, the pages come from `sbrk` or the
call fails and leaves everything but `errno` and the record of calls alone. -/
theorem acquirePages_grow {len : Nat} {kind : Kind} {prot flags : BitVec 32}
    {grow : Option Nat} {st st' : State} {res : Option Nat} (hpos : 0 < len)
    (hlt : len < 4294967296) (hfind : (st.regs.findIdx? fun r =>
      decide (r.kind = .rFree) && decide (len ≤ r.len)) = none)
    (h : acquirePages len kind prot flags grow st = .ok (res, st')) :
    (res = none ∧ grow = none ∧ OnlyLogs st st' ∧ st'.dangling = st.dangling ∧
        st'.calls = st.calls ++ [.sbrk (toIntptr len)]) ∨
      ∃ idx old, res = some idx ∧ grow = some old ∧
        Grown st st' idx (liveRegion (wrap (old * PAGE)) len kind prot flags) := by
  simp only [acquirePages, hfind] at h
  obtain ⟨⟨grown, st₁⟩, hsbrk, hrest⟩ := bind_eq_ok h
  have hinc : toIntptr len ≠ 0 := by
    unfold toIntptr
    split <;> omega
  cases grown with
  | none =>
      obtain ⟨hgrow, rfl⟩ := sbrk_eq_none hinc hsbrk
      simp only [Except.ok.injEq, Prod.mk.injEq] at hrest
      obtain ⟨rfl, rfl⟩ := hrest
      exact Or.inl ⟨rfl, hgrow, ⟨rfl, rfl, rfl, rfl, rfl, rfl, rfl, rfl⟩, rfl, rfl⟩
  | some base =>
      obtain ⟨hincpos, ⟨old, hgrow, rfl⟩, rfl⟩ := sbrk_eq_some hinc hsbrk
      obtain ⟨hnat, hint⟩ := toIntptr_toNat (Int.le_of_lt hincpos) hlt
      simp only [Except.ok.injEq, Prod.mk.injEq] at hrest
      obtain ⟨rfl, rfl⟩ := hrest
      obtain ⟨pre, post, hregs, hprelen⟩ :=
        exists_split (firstOverlap_le (wrap (old * PAGE)) st.regs)
      refine Or.inr ⟨_, old, rfl, hgrow, ⟨rfl, rfl, rfl, rfl, fun _ _ => rfl⟩, ?_, ?_, ?_,
        rfl, pageWrap_dvd old⟩
      · refine ⟨pre, post, hregs, ?_, hprelen.symm, hprelen⟩
        simp only [insertAt, State.record]
        rw [← hprelen, hregs, insertIdx_boundary]
      · simp only [insertAt, hnat]
        rfl
      · simp only [insertAt, State.record, hint]
        rfl

/-- `acquire_pages` when it succeeds. -/
theorem acquirePages_spec {len idx : Nat} {kind : Kind} {prot flags : BitVec 32}
    {grow : Option Nat} {st st' : State} (hpos : 0 < len)
    (hlt : len < 4294967296)
    (h : acquirePages len kind prot flags grow st = .ok (some idx, st')) :
    ∃ base, Reused st st' idx (liveRegion base len kind prot flags) ∨
      Grown st st' idx (liveRegion base len kind prot flags) := by
  cases hfind : st.regs.findIdx? fun r => decide (r.kind = .rFree) && decide (len ≤ r.len) with
  | some i =>
      obtain ⟨base, st₁, hrun, hreused⟩ :=
        acquirePages_reuse kind prot flags grow hfind
      have hsame := hrun.symm.trans h
      simp only [Except.ok.injEq, Prod.mk.injEq, Option.some.injEq] at hsame
      obtain ⟨rfl, rfl⟩ := hsame
      exact ⟨base, Or.inl hreused⟩
  | none =>
      rcases acquirePages_grow hpos hlt hfind h with ⟨hres, _⟩ | ⟨_, old, hres, _, hgrown⟩
      · cases hres
      · obtain rfl := Option.some.inj hres
        exact ⟨_, Or.inr hgrown⟩

/-- A failed `acquire_pages` leaves everything but `errno` and the record of
calls alone. -/
theorem acquirePages_none {len : Nat} {kind : Kind} {prot flags : BitVec 32}
    {grow : Option Nat} {st st' : State} (hpos : 0 < len)
    (hlt : len < 4294967296)
    (h : acquirePages len kind prot flags grow st = .ok (none, st')) :
    OnlyLogs st st' ∧ st'.dangling = st.dangling ∧
      st'.calls = st.calls ++ [.sbrk (toIntptr len)] := by
  cases hfind : st.regs.findIdx? fun r => decide (r.kind = .rFree) && decide (len ≤ r.len) with
  | some i =>
      obtain ⟨base, st₁, hrun, _⟩ :=
        acquirePages_reuse kind prot flags grow hfind
      have hsame := hrun.symm.trans h
      simp at hsame
  | none =>
      rcases acquirePages_grow hpos hlt hfind h with ⟨_, _, hnone⟩ | ⟨_, _, hres, _⟩
      · exact hnone
      · cases hres

/-! The table afterwards -/

/-- Taking the front of a free region only subdivides the table. -/
theorem Front.tiles {live r : Region} {left : List Region}
    (h : Front live.base live.len r left) (hr : r.Ok) (hlive : live.Ok) :
    Tiles Region.base Region.limit r.base (live :: left) r.limit ∧
      ∀ q ∈ left, q.Ok ∧ q.kind = .rFree ∧ live.limit = q.base ∧ q.limit = r.limit := by
  have hpos := hlive.base_lt_limit
  cases h with
  | whole _ hbase hlen =>
      refine ⟨⟨hbase.symm, hbase ▸ hpos, ?_⟩, by simp⟩
      simp only [Tiles, Region.limit, hbase, hlen]
  | rest hfree hbase hlt =>
      have hrlimit := hr.limit_le
      unfold Region.limit at hrlimit
      have hwrap : wrap (live.base + live.len) = live.base + live.len :=
        wrap_of_lt (by omega)
      have hlast : wrap (live.base + live.len) + (r.len - live.len) = r.base + r.len := by
        omega
      simp only [List.mem_singleton, forall_eq]
      refine ⟨⟨hbase.symm, hbase ▸ hpos, hwrap, ?_, hlast⟩,
        ⟨?_, Nat.dvd_sub hr.len_dvd hlive.len_dvd, ?_, ?_, hr.free_dirty, hr.free_fref, ?_⟩,
        hfree, hwrap.symm, hlast⟩
      · simp only [Region.limit, hwrap]
        omega
      · simp only [hwrap]
        exact Nat.dvd_add hlive.base_dvd hlive.len_dvd
      · simp only
        omega
      · simp only [Region.limit, hlast]
        exact hrlimit
      · intro hfile
        exact absurd (hfree.symm.trans hfile) (by decide)

theorem Front.free {base len : Nat} {r : Region} {left : List Region}
    (h : Front base len r left) : r.kind = .rFree := by
  cases h with
  | whole hfree _ _ => exact hfree
  | rest hfree _ _ => exact hfree

theorem Reused.refines {st st' : State} {idx : Nat} {live : Region}
    (h : Reused st st' idx live) (hok : TableOk st.regs) (hlive : live.Ok) :
    Refines st.regs st'.regs ∧ TableOk st'.regs := by
  obtain ⟨pre, r, left, post, hregs, hregs', _, hfront⟩ := h.table
  rw [hregs] at hok ⊢
  rw [hregs']
  have hr := hok.regions r (by simp)
  obtain ⟨htile, hleft⟩ := hfront.tiles hr hlive
  have hfine : Refines (pre ++ r :: post) (pre ++ ((live :: left) ++ post)) :=
    (Subdivides.refl_of_pos hok.append_left.base_pos).append
      (.cons htile (Subdivides.refl_of_pos hok.append_right.tail.base_pos))
  refine ⟨hfine, hfine.ordered hok.ordered, ?_⟩
  intro q hq
  rcases List.mem_append.mp hq with hq | hq
  · exact hok.append_left.regions q hq
  · rcases List.mem_cons.mp hq with rfl | hq
    · exact hlive
    · rcases List.mem_append.mp hq with hq | hq
      · exact (hleft q hq).1
      · exact hok.append_right.tail.regions q hq

/-- A reused region was covered before. -/
theorem Reused.covered {st st' : State} {idx : Nat} {live : Region}
    (h : Reused st st' idx live) (hok : TableOk st.regs) (hlive : live.Ok) {x : Nat}
    (hx : Holds Region.base Region.limit live x) : Covered st.regs x := by
  have hmem : live ∈ st'.regs := by
    obtain ⟨_, _, _, _, _, hregs', _⟩ := h.table
    rw [hregs']
    simp
  exact ((h.refines hok hlive).1.covers_iff x).mp ⟨live, hmem, hx⟩

theorem Reused.touchOld {st st' : State} {idx : Nat} {live : Region}
    (h : Reused st st' idx live) (hok : TableOk st.regs) (hlive : live.Ok)
    (hkind : live.kind ≠ .rFree) : TouchOld st.regs st'.regs := by
  obtain ⟨_, hok'⟩ := h.refines hok hlive
  obtain ⟨pre, r, left, post, hregs, hregs', _, hfront⟩ := h.table
  have hr := hok.regions r (by rw [hregs]; simp)
  obtain ⟨_, hleft⟩ := hfront.tiles hr hlive
  -- a free region of the new table is an old one or what is left of `r`
  have hfree : ∀ q ∈ st'.regs, q.kind = .rFree → q ∈ st.regs ∨ q ∈ left := by
    intro q hq hqfree
    rw [hregs'] at hq
    rw [hregs]
    simp only [List.mem_append, List.mem_cons] at hq ⊢
    rcases hq with hq | rfl | hq | hq
    · exact Or.inl (Or.inl hq)
    · exact absurd hqfree hkind
    · exact Or.inr hq
    · exact Or.inl (Or.inr (Or.inr hq))
  have hrmem : r ∈ st.regs := by rw [hregs]; simp
  rintro a ha b hb ⟨hafree, hbfree, hmeet⟩
  rcases hfree b hb hbfree with hbold | hbleft
  · rcases hfree a ha hafree with haold | haleft
    · exact ⟨a, haold, b, hbold, ⟨hafree, hbfree, hmeet⟩, Nat.le_refl _⟩
    · exact ⟨r, hrmem, b, hbold, ⟨hfront.free, hbfree, (hleft a haleft).2.2.2 ▸ hmeet⟩,
        Nat.le_refl _⟩
  · -- `live` ends where `b` starts, and it is the only region that does
    have hlimit := (hleft b hbleft).2.2.1
    have hlivemem : live ∈ st'.regs := by rw [hregs']; simp
    have hapos := (hok'.regions a ha).base_lt_limit
    have hlpos := hlive.base_lt_limit
    have hlast : Holds Region.base Region.limit a (b.base - 1) :=
      ⟨by omega, by omega⟩
    have hsame : a = live :=
      eq_of_holds hok'.ordered ha hlivemem hlast ⟨by omega, by omega⟩
    exact absurd (hsame ▸ hafree) hkind

theorem Grown.tableOk {st st' : State} {idx : Nat} {live : Region}
    (h : Grown st st' idx live) (hok : TableOk st.regs) (hlive : live.Ok)
    (hfits : Fits live.base live.len st.regs) : TableOk st'.regs := by
  obtain ⟨pre, post, hregs, hregs', _, hidx⟩ := h.table
  obtain ⟨hpre, hpost⟩ := hfits.gap pre post hregs hidx
  rw [hregs] at hok
  rw [hregs']
  refine ⟨ordered_insert hok.ordered (Nat.le_of_lt hlive.base_lt_limit) hpre hpost, ?_⟩
  intro q hq
  rcases List.mem_append.mp hq with hq | hq
  · exact hok.append_left.regions q hq
  · rcases List.mem_cons.mp hq with rfl | hq
    · exact hlive
    · exact hok.append_right.regions q hq

theorem Grown.covered {st st' : State} {idx : Nat} {live : Region}
    (h : Grown st st' idx live) (x : Nat) :
    Covered st'.regs x ↔ Holds Region.base Region.limit live x ∨ Covered st.regs x := by
  obtain ⟨pre, post, hregs, hregs', _⟩ := h.table
  rw [hregs, hregs', Covered, covers_append, covers_cons, Covered, covers_append]
  exact or_left_comm

theorem Grown.touchOld {st st' : State} {idx : Nat} {live : Region}
    (h : Grown st st' idx live) (hkind : live.kind ≠ .rFree) : TouchOld st.regs st'.regs := by
  obtain ⟨pre, post, hregs, hregs', _⟩ := h.table
  have hfree : ∀ q ∈ st'.regs, q.kind = .rFree → q ∈ st.regs := by
    intro q hq hqfree
    rw [hregs'] at hq
    rw [hregs]
    simp only [List.mem_append, List.mem_cons] at hq ⊢
    rcases hq with hq | rfl | hq
    · exact Or.inl hq
    · exact absurd hqfree hkind
    · exact Or.inr hq
  intro a ha b hb htouch
  exact ⟨a, hfree a ha htouch.1, b, hfree b hb htouch.2.1, htouch, Nat.le_refl _⟩

end Mman

end WasixLibc
