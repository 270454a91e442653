/-
What a failed `mmap` leaves behind.

A call that fails after it took its pages gives them back through
`unmap_range`.  The region it freed holds no reference, so the undo writes
nothing and releases nothing; what is left of the call is in the free pool.
-/
import WasixLibc.MmanTouching

namespace WasixLibc

namespace Mman

open SpanList ListZipper

/-- `x` lies in a free dirty region. -/
def Pooled (regs : List Region) (x : Nat) : Prop :=
  ∃ r ∈ regs, Holds Region.base Region.limit r x ∧ r.kind = .rFree ∧ r.dirty = true

/-- `x` lies in a range that `sbrk` returned between the two states. -/
def Fresh (st st' : State) (x : Nat) : Prop :=
  ∃ g ∈ st'.grown, g ∉ st.grown ∧ g.1 ≤ x ∧ x < g.1 + g.2

/-- Nothing but the free pool shows that the call was made.  `acquire_pages`
takes pages out of the pool or from `sbrk`; both are in the pool again. -/
structure FailureAtomic (st st' : State) : Prop where
  live_eq : liveRegions st'.regs = liveRegions st.regs
  mem_eq : ∀ r ∈ liveRegions st.regs, ∀ x, Holds Region.base Region.limit r x →
    st'.mem x = st.mem x
  frefs_eq : st'.frefs = st.frefs
  openFds_eq : st'.openFds = st.openFds
  calls : PlainCalls st st'
  tableInv : TableInv st'.regs
  pooled : ∀ x, Pooled st.regs x ∨ Fresh st st' x → Pooled st'.regs x

/-! Live regions -/

theorem liveRegions_of_free {regs : List Region} (hfree : ∀ r ∈ regs, r.kind = .rFree) :
    liveRegions regs = [] :=
  List.filter_eq_nil_iff.mpr fun r hr => by simpa using hfree r hr

/-- A free region in the middle is no live one. -/
theorem liveRegions_boundary_free {r : Region} (hfree : r.kind = .rFree)
    (pre rest : List Region) :
    liveRegions (pre ++ r :: rest) = liveRegions (pre ++ rest) := by
  rw [liveRegions_append, liveRegions_cons_free hfree, ← liveRegions_append]

/-- A range whose end wrapped to `0` frees nothing. -/
theorem unmapRange_zero_live {start : Nat} {ans : PwriteAnswers} {st st' : State}
    (h : unmapRange start 0 ans st = .ok st') :
    liveRegions st'.regs = liveRegions st.regs := by
  obtain ⟨pre, post, st₁, hregs, _, hturns, rfl⟩ := unmapRange_spec h
  rw [coalesceAround_live, hturns.regs hregs, carveAll_zero, hregs]

/-! Unmapping exactly one region -/

theorem UnmapTurns.eq_of_beyond {start stop : Nat} {pre post : List Region}
    {st st' : State} (h : UnmapTurns start stop pre post st st')
    (hbeyond : ∀ q ∈ post, ¬ q.base < stop) : st' = st := by
  cases h with
  | done => rfl
  | beyond _ => rfl
  | free hlt _ _ => exact absurd hlt (hbeyond _ List.mem_cons_self)
  | cut hlt _ _ _ _ => exact absurd hlt (hbeyond _ List.mem_cons_self)

theorem unmapWriteback_of_fref_none {start stop : Nat} {r : Region}
    (hfref : r.fref = none) (ans : PwriteAnswers) (st : State) :
    unmapWriteback start stop r ans st = .ok (ans, st) := by
  unfold unmapWriteback
  rw [if_neg]
  simp [Region.isSharedWritable, hfref]

/-- The range of a region without a reference: the region is freed in place. -/
theorem unmapRegion_whole {r : Region} (htop : r.limit < 4294967296)
    (hfref : r.fref = none) (i : Nat) (st : State) :
    (unmapRegion r.base r.limit i r st).2 = setAt i (r.toFree r.len) st := by
  have hstart : r.ostart r.base = r.base := by rw [Region.ostart_eq_max, Nat.max_self]
  have hstop : r.oend r.limit = r.endAddr := by
    rw [Region.oend_eq_min htop, Nat.min_self, Region.endAddr_eq_limit htop]
  unfold unmapRegion
  dsimp only
  rw [if_pos ⟨hstart, hstop⟩, hfref]
  split
  · rfl
  · rfl

/-- Unmapping one whole region without a reference frees it, and does nothing
else before the merging. -/
theorem unmapRange_whole {pre rest : List Region} {r : Region} {ans : PwriteAnswers}
    {st st' : State} (hok : TableOk st.regs) (htop : r.limit < 4294967296)
    (hregs : st.regs = pre ++ r :: rest) (hsearch : firstOverlap r.base st.regs = pre.length)
    (hlive : r.kind ≠ .rFree) (hfref : r.fref = none)
    (h : unmapRange r.base r.limit ans st = .ok st') :
    st' = coalesceAround r.base r.limit (setAt pre.length (r.toFree r.len) st) := by
  obtain ⟨below, above, st₁, hsplit, hidx, hturns, rfl⟩ := unmapRange_spec h
  have hlen : pre.length = below.length := hsearch.symm.trans hidx
  rw [hregs] at hok hsplit
  have hpos := hok.base_pos r (by simp)
  obtain ⟨rfl, rfl⟩ : pre = below ∧ r :: rest = above := List.append_inj hsplit hlen
  cases hturns with
  | beyond hge => exact absurd hpos hge
  | free _ hfree _ => exact absurd hfree hlive
  | cut _ _ _ hwrite hrest =>
      rw [unmapWriteback_of_fref_none hfref] at hwrite
      obtain ⟨rfl, rfl⟩ := Prod.mk.inj (Except.ok.inj hwrite)
      have hdone := hrest.eq_of_beyond fun q hq => Nat.not_lt_of_le (hok.around.2 q hq)
      rw [hdone, unmapRegion_whole htop hfref]

/-- The search from the base of the region between `pre` and `rest` finds it. -/
def Findable (pre rest : List Region) : Prop :=
  ∀ last, rest = [last] → last.limit = 4294967296 → ¬ TwoOnes (pre.length + 3)

/-- What is merged then. -/
theorem unmapRange_whole_merged {pre rest : List Region} {r : Region} {ans : PwriteAnswers}
    {st st' : State} (hinv : PoolInv st) (htop : r.limit < 4294967296)
    (hregs : st.regs = pre ++ r :: rest) (hfind : Findable pre rest)
    (hlive : r.kind ≠ .rFree) (hfref : r.fref = none)
    (h : unmapRange r.base r.limit ans st = .ok st') :
    ∃ (freed : Region) (st₁ : State), st₁.regs = pre ++ freed :: rest ∧ TableOk st₁.regs ∧
      Proper st₁.regs ∧ freed.base = r.base ∧ freed.limit = r.limit ∧
      firstOverlap freed.base st₁.regs = pre.length ∧
      st' = coalesceAround freed.base freed.limit st₁ := by
  have hok := hregs ▸ hinv.tableOk
  have hr := hok.regions r (by simp)
  have hfreed : IsFreed (r.toFree r.len) r.base r.limit := ⟨rfl, rfl, rfl, rfl, rfl⟩
  obtain ⟨hfine, hok'⟩ := hok.replace
    (hfreed.ok hr.base_lt_limit hr.limit_le hr.base_dvd hr.limit_dvd) rfl rfl
  have hsearch : firstOverlap r.base st.regs = pre.length := by
    rw [hregs]
    exact firstOverlap_self hok htop hfind
  have hset : (setAt pre.length (r.toFree r.len) st).regs = pre ++ r.toFree r.len :: rest := by
    rw [setAt_regs, hregs, set_boundary]
  have hwhole := unmapRange_whole hinv.tableOk htop hregs hsearch hlive hfref h
  refine ⟨r.toFree r.len, _, hset, hset ▸ hok', ?_, rfl, rfl, ?_, hwhole⟩
  · rw [hset]
    exact hfine.proper.mpr (hregs ▸ hinv.proper)
  · rw [hset]
    exact firstOverlap_self hok' htop hfind

/-- A search that passes the whole table finds nothing to unmap. -/
theorem unmapRange_missed_live {start stop : Nat} {ans : PwriteAnswers} {st st' : State}
    (hmissed : firstOverlap start st.regs = st.regs.length)
    (h : unmapRange start stop ans st = .ok st') :
    liveRegions st'.regs = liveRegions st.regs := by
  obtain ⟨pre, post, st₁, hregs, hidx, hturns, rfl⟩ := unmapRange_spec h
  have hlen : pre.length = (pre ++ post).length := by rw [← hidx, hmissed, hregs]
  obtain rfl : post = [] := by simpa using hlen
  rw [coalesceAround_live, hturns.regs hregs]
  simp only [carveAll, hregs]

/-! The pages the call acquired -/

theorem Front.left_free {base len : Nat} {r : Region} {left : List Region}
    (h : Front base len r left) : ∀ q ∈ left, q.kind = .rFree := by
  cases h with
  | whole _ _ _ => simp
  | rest hfree _ _ =>
      intro q hq
      rw [List.mem_singleton.mp hq]
      exact hfree

/-- Apart from the new region the live ones are those from before. -/
theorem Acquired.live_around {st st' : State} {idx : Nat} {live : Region}
    (h : Acquired st st' idx live) :
    ∃ pre rest, st'.regs = pre ++ live :: rest ∧ idx = pre.length ∧
      liveRegions st.regs = liveRegions (pre ++ rest) := by
  rcases h with h | h
  · obtain ⟨pre, r, left, post, hregs, hregs', hidx, hfront⟩ := h.table
    refine ⟨pre, left ++ post, hregs', hidx, ?_⟩
    rw [hregs, liveRegions_boundary_free hfront.free, liveRegions_append,
      liveRegions_append, liveRegions_append, liveRegions_of_free hfront.left_free,
      List.nil_append]
  · obtain ⟨pre, post, hregs, hregs', hidx, _⟩ := h.table
    exact ⟨pre, post, hregs', hidx, by rw [hregs]⟩

/-- Unmapping the new region, whatever file it is backed by, leaves the live
regions, the references and the descriptors from before. -/
theorem Acquired.unmapped {st st₁ st₂ st₃ : State} {idx n : Nat} {off : Int}
    {live : Region} {ans : PwriteAnswers} (h : Acquired st st₁ idx live)
    (htable : SameTable (updateAt idx (Region.backedBy off n) st₁) st₂)
    (hok : TableOk st₂.regs) (htop : live.limit < 4294967296)
    (hsearch : firstOverlap live.base st₂.regs = idx) (hkind : live.kind ≠ .rFree)
    (hfref : live.fref = none)
    (hrun : unmapRange live.base (wrap live.limit) ans st₂ = .ok st₃) :
    liveRegions st₃.regs = liveRegions st.regs ∧
      (∀ r ∈ liveRegions st.regs, ∀ x, Holds Region.base Region.limit r x →
        ¬ Holds Region.base Region.limit live x) ∧
      st₃.frefs = st.frefs ∧ st₃.openFds = st.openFds ∧ st₃.calls = st₂.calls := by
  obtain ⟨pre, rest, hregs₁, rfl, hlive⟩ := h.live_around
  have hregs : st₂.regs = pre ++ live.backedBy off n :: rest := by
    rw [htable.regs_eq]
    simp only [updateAt, hregs₁, modify_boundary]
  rw [wrap_of_lt htop] at hrun
  have hwhole : st₃ = coalesceAround live.base live.limit
      (setAt pre.length ((live.backedBy off n).toFree live.len) st₂) :=
    unmapRange_whole (r := live.backedBy off n) hok htop hregs hsearch hkind hfref hrun
  refine ⟨?_, ?_, ?_, ?_, ?_⟩
  · rw [hwhole, coalesceAround_live, setAt_regs, hregs, set_boundary,
      liveRegions_boundary_free rfl, hlive]
  · intro r hr x hrx
    rw [hlive] at hr
    have hord := hok.ordered
    rw [hregs] at hord
    -- the backed region has the same span
    have hmiss := not_holds_of_ordered hord (mem_liveRegions.mp hr).1 hrx
    exact hmiss
  · rw [hwhole, coalesceAround_regs_only]
    exact htable.frefs_eq.trans h.placed.frefs_eq
  · rw [hwhole, coalesceAround_regs_only]
    exact htable.openFds_eq.trans h.placed.openFds_eq
  · rw [hwhole, coalesceAround_regs_only]
    rfl

/-- What the host gave to the call is in the table. -/
theorem MmapOutcome.growth {length prot flags : BitVec 32} {fd offset : Int}
    {st st' : State} {ret : Option Nat}
    (h : MmapOutcome length prot flags fd offset st ret st') (hinv : PoolInv st)
    (hhost : ∀ base len, st'.grown = (base, len) :: st.grown → SbrkOk st base len) :
    st'.grown = st.grown ∨ ∃ base len, st'.grown = (base, len) :: st.grown ∧ 0 < len ∧
      ∀ x, base ≤ x → x < base + len → Covered st'.regs x := by
  rcases h.table_cases with ⟨_, hsame⟩ | ⟨base, _, hnew⟩ |
    ⟨base, st₂, ans, st₃, e, _, hnew, hrun, rfl⟩
  · exact Or.inl hsame.grown_eq
  · obtain ⟨hentered, _⟩ := hnew.poolInv hinv (hhost base _)
    rcases hentered.growth with ⟨hgrown, _⟩ | hgrown
    · exact Or.inl hgrown
    · refine Or.inr ⟨base, _, hgrown, hnew.1, fun x hlow hhigh => ?_⟩
      exact (hentered.covered x).mpr (Or.inl ⟨hlow, hhigh⟩)
  · obtain ⟨hentered, _, _, hcov, hpool⟩ := hnew.unmapped hinv hrun (hhost base _)
    rcases hentered.growth with ⟨hgrown, _⟩ | hgrown
    · exact Or.inl (hpool.trans hgrown)
    · refine Or.inr ⟨base, _, hpool.trans hgrown, hnew.1, fun x hlow hhigh => ?_⟩
      exact (hcov x).mpr ((hentered.covered x).mpr (Or.inl ⟨hlow, hhigh⟩))

/-! A failed call -/

theorem SameTable.failureAtomic {st st' : State} (h : SameTable st st')
    (hmem : st'.mem = st.mem) (hcalls : PlainCalls st st') (hinv : TableInv st.regs) :
    FailureAtomic st st' where
  live_eq := by rw [h.regs_eq]
  mem_eq := fun _ _ _ _ => by rw [hmem]
  frefs_eq := h.frefs_eq
  openFds_eq := h.openFds_eq
  calls := hcalls
  tableInv := h.regs_eq ▸ hinv
  pooled := by
    rintro x (hpool | ⟨g, hg, hnew, _⟩)
    · rw [h.regs_eq]
      exact hpool
    · exact absurd (h.grown_eq ▸ hg) hnew

/-- A covered address of no live region is in the pool. -/
theorem pooled_of_covered {regs : List Region} {x : Nat} (hok : TableOk regs)
    (hcov : Covered regs x)
    (hnot : ∀ r ∈ liveRegions regs, ¬ Holds Region.base Region.limit r x) :
    Pooled regs x := by
  obtain ⟨r, hr, hrx⟩ := hcov
  have hfree : r.kind = .rFree := by
    by_contra hlive
    exact hnot r (mem_liveRegions.mpr ⟨hr, hlive⟩) hrx
  exact ⟨r, hr, hrx, hfree, (hok.regions r hr).free_dirty hfree⟩

/-- With the same live regions over at least the same addresses, the pool holds
at least what it held. -/
theorem pooled_of_live_eq {st st' : State} (hinv : PoolInv st) (hinv' : PoolInv st')
    (hlive : liveRegions st'.regs = liveRegions st.regs)
    (hcov : ∀ x, Covered st.regs x → Covered st'.regs x)
    (hgrowth : st'.grown = st.grown ∨ ∃ base len, st'.grown = (base, len) :: st.grown ∧
      0 < len ∧ ∀ x, base ≤ x → x < base + len → Covered st'.regs x)
    (hhost : ∀ base len, st'.grown = (base, len) :: st.grown → SbrkOk st base len) :
    ∀ x, Pooled st.regs x ∨ Fresh st st' x → Pooled st'.regs x := by
  rintro x (⟨r, hr, hrx, hfree, _⟩ | ⟨g, hg, hnew, hlow, hhigh⟩)
  · refine pooled_of_covered hinv'.tableOk (hcov x ⟨r, hr, hrx⟩) ?_
    intro q hq hqx
    rw [hlive] at hq
    obtain ⟨hq, hqlive⟩ := mem_liveRegions.mp hq
    have hsame := eq_of_holds hinv.tableOk.ordered hq hr hqx hrx
    exact hqlive (hsame ▸ hfree)
  · rcases hgrowth with hgrown | ⟨base, len, hgrown, _, hcovers⟩
    · exact absurd (hgrown ▸ hg) hnew
    · rw [hgrown] at hg
      obtain rfl : g = (base, len) := (List.mem_cons.mp hg).resolve_right hnew
      refine pooled_of_covered hinv'.tableOk (hcovers x hlow hhigh) ?_
      intro q hq hqx
      rw [hlive] at hq
      -- a live region from before lies where `sbrk` returned pages before
      obtain ⟨g', hg', hlow', hhigh'⟩ :=
        hinv.within x ⟨q, (mem_liveRegions.mp hq).1, hqx⟩
      have hunowned := (hhost base len hgrown).unowned g' hg'
      dsimp only at hlow hhigh
      omega

/-- A failure exit is atomic exactly if the range of the new region ends below the
top, the search finds that region, and the table is coalesced afterwards. -/
theorem Undone.failureAtomic_iff {length prot flags : BitVec 32} {fd offset : Int}
    {st st₁ st' : State} {idx base : Nat} {pre rest : List Region}
    (h : Undone idx base (pageCeil length.toNat) st₁ st') (hinv : PoolInv st)
    (hcheck : mmapCheck length prot flags fd offset = none)
    (hacq : Acquired st st₁ idx
      (liveRegion base (pageCeil length.toNat) .rFile prot flags))
    (hregs : st₁.regs = pre ++ liveRegion base (pageCeil length.toNat) .rFile prot flags :: rest)
    (hidx : idx = pre.length)
    (hhost : ∀ base len, st'.grown = (base, len) :: st.grown → SbrkOk st base len) :
    FailureAtomic st st' ↔
      base + pageCeil length.toNat < 4294967296 ∧ Findable pre rest ∧ Coalesced st'.regs := by
  have houtcome := h.outcome hcheck hacq
  obtain ⟨hinv', hcovers⟩ := houtcome.poolInv hinv hhost
  have hgrowth := houtcome.growth hinv hhost
  obtain @⟨st₂, st₃, n, off, ans, e, hn, htable, hframe, hplain, hrun⟩ := h
  have hpos := pageCeil_pos_of_check hcheck
  obtain ⟨hentered, hinv₂, _⟩ :=
    (hacq.newRegion_backedBy hpos hn htable).unmapped hinv hrun (hhost base _)
  have hregs₂ : st₂.regs = pre ++
      (liveRegion base (pageCeil length.toNat) .rFile prot flags).backedBy off n :: rest := by
    rw [htable.regs_eq]
    simp only [updateAt, hregs, hidx, modify_boundary]
  have hok₂ := hregs₂ ▸ hinv₂.tableOk
  constructor
  · intro hatomic
    -- the new region is none of the live ones from before
    have hgone : liveRegions st₃.regs ≠ liveRegions st₂.regs := by
      intro hsame
      obtain ⟨pre', rest', hregs', hidx', hlive⟩ := hacq.live_around
      obtain ⟨rfl, hrest⟩ := List.append_inj (hregs.symm.trans hregs') (hidx.symm.trans hidx')
      obtain rfl := (List.cons.inj hrest).2
      have hmem : (liveRegion base (pageCeil length.toNat) .rFile prot flags).backedBy off n ∈
          liveRegions st₂.regs :=
        mem_liveRegions.mpr ⟨by rw [hregs₂]; simp, Kind.noConfusion⟩
      rw [← hsame, show liveRegions st₃.regs = _ from hatomic.live_eq, hlive] at hmem
      have hold := (mem_liveRegions.mp hmem).1
      have hholds : Holds Region.base Region.limit
          ((liveRegion base (pageCeil length.toNat) .rFile prot flags).backedBy off n) base :=
        ⟨Nat.le_refl _, Nat.lt_add_of_pos_right hpos⟩
      exact not_holds_of_ordered hok₂.ordered hold hholds hholds
    refine ⟨?_, ?_, hatomic.tableInv.coalesced⟩
    · by_contra hnot
      have hend : base + pageCeil length.toNat = 4294967296 :=
        Nat.le_antisymm hentered.limit_le (Nat.le_of_not_lt hnot)
      rw [hend] at hrun
      exact hgone (unmapRange_zero_live hrun)
    · intro last hrest htop htwo
      rw [hrest] at hregs₂ hok₂
      refine hgone (unmapRange_missed_live ?_ hrun)
      rw [hregs₂]
      have hskips := firstOverlap_skips hok₂ htop hok₂.around.1
        (Nat.lt_add_of_pos_right hpos) htwo
      exact hskips.trans (by simp)
  · rintro ⟨htop, hfind, hcoalesced⟩
    have hsearch : firstOverlap base st₂.regs = idx := by
      rw [hregs₂, hidx]
      exact firstOverlap_self hok₂ htop hfind
    obtain ⟨hlive, hapart, hfrefs, hfds, hcalls⟩ :=
      hacq.unmapped htable hinv₂.tableOk htop hsearch Kind.noConfusion rfl hrun
    refine ⟨hlive, ?_, hfrefs, hfds, ?_, hinv'.tableOk.tableInv hcoalesced,
      pooled_of_live_eq hinv hinv' hlive hcovers hgrowth hhost⟩
    · -- the bytes that were zeroed or read belong to the new region
      intro r hr x hrx
      have hmiss := hapart r hr x hrx
      have hfill := (hframe x hmiss).trans (hacq.placed.mem_frame x hmiss)
      exact (congrFun (unmapRange_samePool hrun).mem_eq x).trans hfill
    · exact (hacq.plainCalls.trans hplain).trans (.of_eq hcalls)

/-! How the call fails -/

section

variable {length prot flags : BitVec 32} {fd offset : Int} {ans : Answers} {st st' : State}

/-- The call passes its checks and grows the table, so that it asks for pages. -/
def Acquires (length prot flags : BitVec 32) (fd offset : Int) (ans : Answers)
    (st : State) : Prop :=
  mmapCheck length prot flags fd offset = none ∧ (reserve 2 ans.realloc st).1 = true

/-- The index of the region whose front the call takes. -/
def firstFit (len : Nat) (st : State) : Option Nat :=
  st.regs.findIdx? fun r => decide (r.kind = .rFree) && decide (len ≤ r.len)

/-- Where a call that fails got its pages from, if it did. -/
inductive MmapFailed (length prot flags : BitVec 32) (fd offset : Int) (ans : Answers)
    (st : State) : State → Prop
  | refused {st' : State} : SameTable st st' → st'.mem = st.mem → PlainCalls st st' →
      (Acquires length prot flags fd offset ans st →
        firstFit (pageCeil length.toNat) st = none ∧ ans.memoryGrow = none) →
      MmapFailed length prot flags fd offset ans st st'
  | reused {st₁ st' : State} {idx base : Nat} :
      Acquires length prot flags fd offset ans st →
      firstFit (pageCeil length.toNat) st = some idx →
      Reused st st₁ idx (liveRegion base (pageCeil length.toNat) .rFile prot flags) →
      Undone idx base (pageCeil length.toNat) st₁ st' →
      MmapFailed length prot flags fd offset ans st st'
  | grown {st₁ st' : State} {idx old : Nat} :
      Acquires length prot flags fd offset ans st →
      firstFit (pageCeil length.toNat) st = none → ans.memoryGrow = some old →
      Grown st st₁ idx
        (liveRegion (wrap (old * PAGE)) (pageCeil length.toNat) .rFile prot flags) →
      Undone idx (wrap (old * PAGE)) (pageCeil length.toNat) st₁ st' →
      MmapFailed length prot flags fd offset ans st st'

/-- An anonymous mapping that got its pages does not fail. -/
theorem acquired_undone {st₁ : State} {idx base : Nat}
    (hcheck : mmapCheck length prot flags fd offset = none)
    (hacq : Acquired st st₁ idx (liveRegion base (pageCeil length.toNat)
      (if decide (flags &&& MAP_ANON ≠ 0) then .rAnon else .rFile) prot flags))
    (h : (if decide (flags &&& MAP_ANON ≠ 0) then .ok (some base, st₁)
      else populate idx base (pageCeil length.toNat) prot flags fd offset ans st₁) =
        (.ok (none, st') : Except Stop _)) :
    decide (flags &&& MAP_ANON ≠ 0) = false ∧
      Undone idx base (pageCeil length.toNat) st₁ st' := by
  by_cases hanon : flags &&& MAP_ANON = 0
  · have hfile : decide (flags &&& MAP_ANON ≠ 0) = false := by simpa using hanon
    rw [hfile] at h hacq
    rcases populate_outcome hcheck hanon hacq h with ⟨_, hundone⟩ | ⟨hret, _⟩
    · exact ⟨hfile, hundone⟩
    · cases hret
  · have hmem : decide (flags &&& MAP_ANON ≠ 0) = true := by simpa using hanon
    rw [hmem] at h
    cases h

theorem mmap_failed (h : mmap length prot flags fd offset ans st = .ok (none, st')) :
    MmapFailed length prot flags fd offset ans st st' := by
  unfold mmap at h
  split at h
  · rename_i e hcheck
    simp only [Except.ok.injEq, Prod.mk.injEq, true_and] at h
    subst h
    refine .refused (setErrno_sameTable _ _) rfl (.of_eq rfl) fun hacquires => ?_
    rw [hacquires.1] at hcheck
    cases hcheck
  · rename_i hcheck
    have hpos := pageCeil_pos_of_check hcheck
    have hlen := pageCeil_lt length.toNat
    dsimp only at h
    split at h
    · rename_i hreserve
      obtain ⟨cap, rfl⟩ := reserve_spec hreserve
      simp only [Except.ok.injEq, Prod.mk.injEq, true_and] at h
      subst h
      refine .refused ⟨rfl, rfl, rfl, rfl, rfl, rfl⟩ rfl (.of_eq rfl) fun hacquires => ?_
      have hdone := hacquires.2
      rw [hreserve] at hdone
      cases hdone
    · rename_i hreserve
      have hacquires : Acquires length prot flags fd offset ans st :=
        ⟨hcheck, by rw [hreserve]⟩
      obtain ⟨cap, rfl⟩ := reserve_spec hreserve
      obtain ⟨⟨res, st₁⟩, hacquire, hrest⟩ := bind_eq_ok h
      cases hfit : firstFit (pageCeil length.toNat) { st with capregs := cap } with
      | some i =>
          obtain ⟨base, st₂, hrun, hreused⟩ := acquirePages_reuse
            (if decide (flags &&& MAP_ANON ≠ 0) then .rAnon else .rFile) prot flags
            ans.memoryGrow hfit
          have hsame := hrun.symm.trans hacquire
          simp only [Except.ok.injEq, Prod.mk.injEq] at hsame
          obtain ⟨rfl, rfl⟩ := hsame
          have hacq : Acquired st _ i _ := Or.inl hreused.of_capregs
          dsimp only at hrest
          rw [hacq.base_eq] at hrest
          obtain ⟨hfile, hundone⟩ := acquired_undone hcheck hacq hrest
          rw [hfile] at hreused
          exact .reused hacquires hfit hreused.of_capregs hundone
      | none =>
          rcases acquirePages_grow hpos hlen hfit hacquire with
            ⟨rfl, hgrow, hlogs, hdangling, hcalls⟩ | ⟨idx, old, rfl, hgrow, hgrown⟩
          · simp only [Except.ok.injEq, Prod.mk.injEq, true_and] at hrest
            subst hrest
            refine .refused ?_ hlogs.mem_eq (.single _ hcalls trivial) fun _ => ⟨hfit, hgrow⟩
            exact ⟨hlogs.regs_eq, hlogs.frefs_eq, hlogs.nextPtr_eq, hlogs.openFds_eq,
              hlogs.grown_eq, hdangling⟩
          · have hacq : Acquired st _ idx _ := Or.inr hgrown.of_capregs
            dsimp only at hrest
            rw [hacq.base_eq] at hrest
            obtain ⟨hfile, hundone⟩ := acquired_undone hcheck hacq hrest
            rw [hfile] at hgrown
            exact .grown hacquires hfit hgrow hgrown.of_capregs hundone

/-- What stays free of the region `r` behind its first `len` bytes. -/
def Region.behind (len : Nat) (r : Region) : List Region :=
  if len < r.len then [{ r with base := wrap (r.base + len), len := r.len - len }] else []

theorem Region.behind_span {len : Nat} {r q : Region} (hr : r.Ok) (hq : q ∈ r.behind len) :
    q.base = r.base + len ∧ q.limit = r.limit := by
  unfold Region.behind at hq
  split at hq
  · rename_i hlt
    have hlimit := hr.limit_le
    unfold Region.limit at hlimit
    rw [List.mem_singleton.mp hq]
    have hwrap : wrap (r.base + len) = r.base + len := wrap_of_lt (by omega)
    exact ⟨hwrap, by simp only [Region.limit, hwrap]; omega⟩
  · simp at hq

theorem Front.len_le {base len : Nat} {r : Region} {left : List Region}
    (h : Front base len r left) : len ≤ r.len := by
  cases h with
  | whole _ _ hlen => exact Nat.le_of_eq hlen.symm
  | rest _ _ hlt => exact Nat.le_of_lt hlt

theorem Front.left_eq {base len : Nat} {r : Region} {left : List Region}
    (h : Front base len r left) : r.base = base ∧ left = r.behind len := by
  cases h with
  | whole _ hbase hlen => simp [hbase, Region.behind, hlen]
  | rest _ hbase hlt => simp [hbase, Region.behind, hlt]

/-- When a call that fails undoes all it did. -/
structure Undoable (length prot flags : BitVec 32) (fd offset : Int) (ans : Answers)
    (st : State) : Prop where
  /-- Nothing was done yet. -/
  early : ¬ Acquires length prot flags fd offset ans st → Coalesced st.regs
  /-- The front of a free region is freed again: it is found, and its neighbours are
  the only free regions that touch another one. -/
  reused : Acquires length prot flags fd offset ans st → ∀ pre r post,
    st.regs = pre ++ r :: post → firstFit (pageCeil length.toNat) st = some pre.length →
    r.base + pageCeil length.toNat < 4294967296 ∧
      Findable pre (r.behind (pageCeil length.toNat) ++ post) ∧
      ∀ a ∈ st.regs, ∀ b ∈ st.regs, Touching a b → a = r ∨ b = r
  /-- The pages of `sbrk` are freed again. -/
  grown : Acquires length prot flags fd offset ans st →
    firstFit (pageCeil length.toNat) st = none → Coalesced st.regs ∧
      ∀ old, ans.memoryGrow = some old →
        wrap (old * PAGE) + pageCeil length.toNat < 4294967296

/-- The table after a failure exit is the one with the new region freed, merged. -/
theorem Undone.merged {st₁ : State} {idx base : Nat} {pre rest : List Region}
    (h : Undone idx base (pageCeil length.toNat) st₁ st') (hinv : PoolInv st)
    (hcheck : mmapCheck length prot flags fd offset = none)
    (hacq : Acquired st st₁ idx
      (liveRegion base (pageCeil length.toNat) .rFile prot flags))
    (hregs : st₁.regs = pre ++ liveRegion base (pageCeil length.toNat) .rFile prot flags :: rest)
    (hidx : idx = pre.length)
    (hhost : ∀ base len, st'.grown = (base, len) :: st.grown → SbrkOk st base len)
    (htop : base + pageCeil length.toNat < 4294967296) (hfind : Findable pre rest) :
    ∃ (freed : Region) (st₂ : State), st₂.regs = pre ++ freed :: rest ∧ TableOk st₂.regs ∧
      Proper st₂.regs ∧ freed.base = base ∧ freed.limit = base + pageCeil length.toNat ∧
      firstOverlap freed.base st₂.regs = pre.length ∧
      st'.regs = (coalesceAround freed.base freed.limit st₂).regs := by
  obtain @⟨st₂, st₃, n, off, pwrites, e, hn, htable, _, _, hrun⟩ := h
  obtain ⟨_, hinv₂, _⟩ := (hacq.newRegion_backedBy (pageCeil_pos_of_check hcheck) hn
    htable).unmapped hinv hrun (hhost base _)
  have hregs₂ : st₂.regs = pre ++
      (liveRegion base (pageCeil length.toNat) .rFile prot flags).backedBy off n :: rest := by
    rw [htable.regs_eq]
    simp only [updateAt, hregs, hidx, modify_boundary]
  rw [wrap_of_lt htop] at hrun
  have hlimit : ((liveRegion base (pageCeil length.toNat) .rFile prot flags).backedBy
      off n).limit < 4294967296 := htop
  obtain ⟨freed, st₄, hregs₄, hok₄, hproper₄, hfbase, hflimit, hsearch, heq⟩ :=
    unmapRange_whole_merged hinv₂ hlimit hregs₂ hfind Kind.noConfusion rfl hrun
  have hregs' : st₃.regs = (coalesceAround freed.base freed.limit st₄).regs :=
    congrArg State.regs heq
  exact ⟨freed, st₄, hregs₄, hok₄, hproper₄, hfbase, hflimit, hsearch, hregs'⟩

theorem Undone.grown_eq {st₁ : State} {idx base len : Nat}
    (h : Undone idx base len st₁ st') : st'.grown = st₁.grown := by
  obtain ⟨_, htable, _, _, hrun⟩ := h
  exact (unmapRange_samePool hrun).grown_eq.trans htable.grown_eq

/-- A call that gives back the front of a free region. -/
theorem reused_failureAtomic_iff {st₁ : State} {base : Nat} {pre left post : List Region}
    {r : Region} (hinv : PoolInv st) (hnear : NearlyCoalesced st.regs)
    (hcheck : mmapCheck length prot flags fd offset = none)
    (hacq : Acquired st st₁ pre.length
      (liveRegion base (pageCeil length.toNat) .rFile prot flags))
    (hold : st.regs = pre ++ r :: post)
    (hregs : st₁.regs = pre ++
      liveRegion base (pageCeil length.toNat) .rFile prot flags :: (left ++ post))
    (hfront : Front base (pageCeil length.toNat) r left)
    (h : Undone pre.length base (pageCeil length.toNat) st₁ st')
    (hhost : ∀ base len, st'.grown = (base, len) :: st.grown → SbrkOk st base len) :
    FailureAtomic st st' ↔
      base + pageCeil length.toNat < 4294967296 ∧ Findable pre (left ++ post) ∧
        ∀ a ∈ st.regs, ∀ b ∈ st.regs, Touching a b → a = r ∨ b = r := by
  rw [h.failureAtomic_iff hinv hcheck hacq hregs rfl hhost]
  refine and_congr_right fun htop => and_congr_right fun hfind => ?_
  obtain ⟨freed, st₂, hregs₂, hok₂, hproper₂, hbase, hlimit, hsearch, hregs'⟩ :=
    h.merged hinv hcheck hacq hregs rfl hhost htop hfind
  have hok := hold ▸ hinv.tableOk
  have hr := hok.regions r (by simp)
  have hlen := hfront.len_le
  obtain ⟨rfl, rfl⟩ := hfront.left_eq
  have hleft : ∀ q ∈ r.behind (pageCeil length.toNat), q.base = freed.limit ∧
      q.limit ≤ r.limit := by
    intro q hq
    obtain ⟨hqbase, hqlimit⟩ := Region.behind_span hr hq
    exact ⟨by omega, Nat.le_of_eq hqlimit⟩
  rw [hregs', hold]
  constructor
  · refine touching_of_settled hok (hold ▸ hnear) hfront.free hregs₂ hok₂ hproper₂ ?_
      fun q hq => (hleft q hq).2
    unfold Region.limit at hlimit ⊢
    omega
  · exact settled_of_touching hok hregs₂ hok₂ hproper₂ hbase (fun q hq => (hleft q hq).1) hsearch

/-- In every reachable state, an `mmap` that fails leaves nothing of its work behind
exactly if it is undoable. -/
theorem mmap_failureAtomic_iff {labels : List Label}
    (hrun : Run (Step SbrkOk) State.init labels st)
    (hmap : mmap length prot flags fd offset ans st = .ok (none, st'))
    (hhost : ∀ base len, st'.grown = (base, len) :: st.grown → SbrkOk st base len) :
    FailureAtomic st st' ↔ Undoable length prot flags fd offset ans st := by
  have hinv := run_poolInv hrun
  have hnear := run_nearly hrun
  cases mmap_failed hmap with
  | refused htable hmem hplain hnone =>
      constructor
      · intro hatomic
        have hcoalesced : Coalesced st.regs := htable.regs_eq ▸ hatomic.tableInv.coalesced
        refine ⟨fun _ => hcoalesced, ?_, ?_⟩
        · intro hacquires pre r post _ hfit
          rw [(hnone hacquires).1] at hfit
          cases hfit
        · refine fun hacquires _ => ⟨hcoalesced, fun old hgrow => ?_⟩
          rw [(hnone hacquires).2] at hgrow
          cases hgrow
      · intro hundoable
        have hcoalesced : Coalesced st.regs := by
          by_cases hacquires : Acquires length prot flags fd offset ans st
          · exact (hundoable.grown hacquires (hnone hacquires).1).1
          · exact hundoable.early hacquires
        exact htable.failureAtomic hmem hplain (hinv.tableOk.tableInv hcoalesced)
  | reused hacquires hfit hreused hundone =>
      obtain ⟨pre, r, left, post, hregs, hregs₁, rfl, hfront⟩ := hreused.table
      obtain ⟨rfl, rfl⟩ := hfront.left_eq
      rw [reused_failureAtomic_iff hinv hnear hacquires.1 (Or.inl hreused) hregs hregs₁ hfront
        hundone hhost]
      constructor
      · intro hfound
        refine ⟨fun hnot => absurd hacquires hnot, ?_, ?_⟩
        · intro _ pre' r' post' hregs' hfit'
          have hlen := Option.some.inj (hfit.symm.trans hfit')
          obtain ⟨rfl, hrest⟩ := List.append_inj (hregs.symm.trans hregs') hlen
          obtain ⟨rfl, rfl⟩ := List.cons.inj hrest
          exact hfound
        · intro _ hnofit
          rw [hfit] at hnofit
          cases hnofit
      · exact fun hundoable => hundoable.reused hacquires pre r post hregs hfit
  | @grown st₁ _ idx old hacquires hfit hgrow hgrown hundone =>
      have hnew := hundone.grown_eq.trans hgrown.grown_eq
      have hsbrk := hhost _ _ hnew
      have htop := belowTop_of_room hinv.tableOk hinv.within hsbrk.room
      have hlow : LowInv st := ⟨hinv, hsbrk.room, hnear.coalesced hinv.tableOk htop⟩
      obtain ⟨pre, post, hregs, hregs₁, hidx, _⟩ := hgrown.table
      rw [hundone.failureAtomic_iff hinv hacquires.1 (Or.inr hgrown) hregs₁ hidx hhost]
      constructor
      · rintro ⟨hend, _⟩
        refine ⟨fun hnot => absurd hacquires hnot, ?_, ?_⟩
        · intro _ _ _ _ _ hfit'
          rw [hfit] at hfit'
          cases hfit'
        · refine fun _ _ => ⟨hlow.coalesced, fun old' hgrow' => ?_⟩
          obtain rfl := Option.some.inj (hgrow.symm.trans hgrow')
          exact hend
      · intro hundoable
        have hend := (hundoable.grown hacquires hfit).2 old hgrow
        refine ⟨hend, ?_, ?_⟩
        · intro last hpost hlast
          have hbelow := htop last (by rw [hregs, hpost]; simp)
          omega
        · have houtcome := hundone.outcome hacquires.1 (Or.inr hgrown)
          refine (houtcome.lowInv hlow
            fun base len hg => ⟨?_, (hhost base len hg).unowned⟩).coalesced
          have hpair := hg.symm.trans hnew
          simp only [List.cons.injEq, Prod.mk.injEq, and_true] at hpair
          obtain ⟨rfl, rfl⟩ := hpair
          exact hend

end

namespace FailureWitness

open RunWitness

/-- One page of a file: three bytes arrive, then the read fails. -/
def onePage : Call := .mmap 0x10000 1 2 3 0

def failing (grow : Option Nat) : Answers :=
  { memoryGrow := grow, preads := [.ok [1, 2, 3], .err (.other 29)] }

/-- The free page between two mappings is taken and given back. -/
theorem holed_failureAtomic : FailureAtomic holed (onePage.after (failing none) holed) := by
  have hmap : Step SbrkOk State.init
      (.call (.mmap 0x30000 3 0x22 (-1) 0) (.addr (some 0x20000))) mapped :=
    Call.step_of_grown_cons (by decide +kernel)
      (show mapped.grown = (0x20000, 0x30000) :: State.init.grown by decide +kernel)
      ⟨by decide, by simp [State.init], by simp [State.init], Or.inl (by simp [State.init])⟩
  have hunmap : Step SbrkOk mapped (.call (.munmap 0x30000 0x10000) (.code 0)) holed :=
    Call.step_of_grown_eq (by decide +kernel) (by decide +kernel)
  have hfail : mmap 0x10000 1 2 3 0 (failing none) holed =
      .ok (none, onePage.after (failing none) holed) :=
    mmap_of_result (by decide +kernel)
  have hgrown : (onePage.after (failing none) holed).grown = holed.grown := by
    decide +kernel
  have hfit : firstFit (pageCeil 0x10000) holed = some 1 := by decide +kernel
  refine (mmap_failureAtomic_iff ((Run.single hmap).snoc hunmap) hfail ?_).mpr ⟨?_, ?_, ?_⟩
  · intro base len hnew
    exact absurd (hnew.symm.trans hgrown) (List.cons_ne_self _ _)
  · exact fun hnot => absurd ⟨by decide +kernel, by decide +kernel⟩ hnot
  · intro _ pre r post hregs hfit'
    have hlen : 1 = pre.length := Option.some.inj (hfit.symm.trans hfit')
    have hr : holed.regs[1]? = some r := by rw [hregs, hlen, getElem?_boundary]
    have hbase : holed.regs[1]?.map Region.base = some 0x30000 := by decide +kernel
    rw [hr] at hbase
    refine ⟨?_, ?_, ?_⟩
    · rw [Option.some.inj hbase]
      decide
    · intro last _ _
      rw [← hlen]
      exact not_twoOnes_two_pow 2
    · have hnone : ∀ a ∈ holed.regs, ∀ b ∈ holed.regs, ¬ Touching a b := by
        unfold Touching
        decide +kernel
      exact fun a ha b hb htouch => absurd htouch (hnone a ha b hb)
  · intro _ hnofit
    have hnone := hfit.symm.trans hnofit
    cases hnone

/-- The last page of the address space, taken by the first call of all. -/
def lastPage : State := onePage.after (failing (some 0xFFFF)) State.init

/-- The call fails and its mapping stays. -/
theorem lastPage_not_failureAtomic :
    Run (Step SbrkOk) State.init [.call onePage (.addr none)] lastPage ∧
      (liveRegions lastPage.regs).map Region.base = [0xFFFF0000] ∧
      ¬ FailureAtomic State.init lastPage := by
  have hstep : Step SbrkOk State.init (.call onePage (.addr none)) lastPage := by
    refine Call.step_of_grown_cons (by decide +kernel)
      (show lastPage.grown = (0xFFFF0000, 0x10000) :: State.init.grown by decide +kernel) ?_
    exact ⟨by decide, by simp [State.init], by simp [State.init],
      Or.inl (by simp [State.init])⟩
  refine ⟨Run.single hstep, by decide +kernel, fun hatomic => ?_⟩
  have hlive := hatomic.live_eq
  exact absurd hlive (by decide +kernel)

end FailureWitness

end Mman

end WasixLibc
