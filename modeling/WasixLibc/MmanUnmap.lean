/-
What the loops of `unmap_range` and `coalesce_around` do to the table.

The index loops are read as functions on the part of the table ahead of the
index: `carveAll` cuts every region the range meets, `coalesceFrom` merges
touching free neighbours.
-/
import WasixLibc.MmanTable

namespace WasixLibc

namespace Mman

open SpanList ListZipper

/-- `st'` differs from `st` in the record of host calls, in `errno`, and in
the record of dangling uses at most. -/
structure OnlyLogs (st st' : State) : Prop where
  regs_eq : st'.regs = st.regs
  capregs_eq : st'.capregs = st.capregs
  frefs_eq : st'.frefs = st.frefs
  nextPtr_eq : st'.nextPtr = st.nextPtr
  mem_eq : st'.mem = st.mem
  openFds_eq : st'.openFds = st.openFds
  grown_eq : st'.grown = st.grown
  overrun_eq : st'.overrun = st.overrun

/-- The parts of the state that unmapping leaves alone. -/
structure SamePool (st st' : State) : Prop where
  mem_eq : st'.mem = st.mem
  grown_eq : st'.grown = st.grown
  capregs_eq : st'.capregs = st.capregs
  nextPtr_eq : st'.nextPtr = st.nextPtr

theorem OnlyLogs.refl (st : State) : OnlyLogs st st :=
  ⟨rfl, rfl, rfl, rfl, rfl, rfl, rfl, rfl⟩

theorem OnlyLogs.trans {a b c : State} (hab : OnlyLogs a b) (hbc : OnlyLogs b c) :
    OnlyLogs a c where
  regs_eq := hbc.regs_eq.trans hab.regs_eq
  capregs_eq := hbc.capregs_eq.trans hab.capregs_eq
  frefs_eq := hbc.frefs_eq.trans hab.frefs_eq
  nextPtr_eq := hbc.nextPtr_eq.trans hab.nextPtr_eq
  mem_eq := hbc.mem_eq.trans hab.mem_eq
  openFds_eq := hbc.openFds_eq.trans hab.openFds_eq
  grown_eq := hbc.grown_eq.trans hab.grown_eq
  overrun_eq := hbc.overrun_eq.trans hab.overrun_eq

theorem OnlyLogs.samePool {st st' : State} (h : OnlyLogs st st') : SamePool st st' :=
  ⟨h.mem_eq, h.grown_eq, h.capregs_eq, h.nextPtr_eq⟩

theorem setErrno_onlyLogs (e : Errno) (st : State) : OnlyLogs st (st.setErrno e) :=
  ⟨rfl, rfl, rfl, rfl, rfl, rfl, rfl, rfl⟩

theorem setDangling_onlyLogs (b : Bool) (st : State) :
    OnlyLogs st { st with dangling := b } :=
  ⟨rfl, rfl, rfl, rfl, rfl, rfl, rfl, rfl⟩

theorem SamePool.refl (st : State) : SamePool st st := ⟨rfl, rfl, rfl, rfl⟩

theorem SamePool.trans {a b c : State} (hab : SamePool a b) (hbc : SamePool b c) :
    SamePool a c :=
  ⟨hbc.mem_eq.trans hab.mem_eq, hbc.grown_eq.trans hab.grown_eq,
    hbc.capregs_eq.trans hab.capregs_eq, hbc.nextPtr_eq.trans hab.nextPtr_eq⟩

theorem bind_eq_ok {α β : Type} {x : Except Stop α} {f : α → Except Stop β} {b : β}
    (h : (x >>= f) = .ok b) : ∃ a, x = .ok a ∧ f a = .ok b := by
  cases x with
  | error e => cases h
  | ok a => exact ⟨a, rfl, h⟩

/-! Writeback -/

theorem writebackLoop_onlyLogs {ptr fd : Nat} {ans ans' : PwriteAnswers}
    {body remaining : Nat} {off : Int} {st st' : State} {done : Bool}
    (h : writebackLoop ptr fd ans body remaining off st = .ok (done, ans', st')) :
    OnlyLogs st st' := by
  fun_induction writebackLoop ptr fd ans body remaining off st with
  | case1 =>
      cases h
      exact OnlyLogs.refl _
  | case2 => cases h
  | case3 ans body remaining off st st₁ ih =>
      have hstep : OnlyLogs st st₁ := ⟨rfl, rfl, rfl, rfl, rfl, rfl, rfl, rfl⟩
      exact hstep.trans (ih h)
  | case4 =>
      simp only [Except.ok.injEq, Prod.mk.injEq] at h
      obtain ⟨-, -, rfl⟩ := h
      exact ⟨rfl, rfl, rfl, rfl, rfl, rfl, rfl, rfl⟩
  | case5 count ans body remaining off st n st₁ ih =>
      have hstep : OnlyLogs st st₁ := ⟨rfl, rfl, rfl, rfl, rfl, rfl, rfl, rfl⟩
      exact hstep.trans (ih h)

theorem writeback_onlyLogs {r : Region} {start stop : Nat} {ans ans' : PwriteAnswers}
    {st st' : State} {done : Bool}
    (h : writeback r start stop ans st = .ok (done, ans', st')) : OnlyLogs st st' := by
  unfold writeback at h
  split at h
  · cases h
    exact OnlyLogs.refl _
  · split at h
    · cases h
      exact setDangling_onlyLogs true st
    · exact (setDangling_onlyLogs _ st).trans (writebackLoop_onlyLogs h)

theorem unmapWriteback_onlyLogs {start stop : Nat} {r : Region}
    {ans ans' : PwriteAnswers} {st st' : State}
    (h : unmapWriteback start stop r ans st = .ok (ans', st')) : OnlyLogs st st' := by
  unfold unmapWriteback at h
  split at h
  · obtain ⟨⟨done, ans₁, st₁⟩, hwrite, hrest⟩ := bind_eq_ok h
    cases hrest
    exact writeback_onlyLogs hwrite
  · cases h
    exact OnlyLogs.refl _

/-! Primitive updates of the table -/

@[simp] theorem frefRelease_regs (p : Option Nat) (st : State) :
    (frefRelease p st).regs = st.regs := by
  unfold frefRelease
  split
  · rfl
  · split
    · rfl
    · split <;> rfl

@[simp] theorem frefRetain_regs (p : Option Nat) (st : State) :
    (frefRetain p st).regs = st.regs := by
  unfold frefRetain
  split <;> rfl

theorem frefRelease_samePool (p : Option Nat) (st : State) :
    SamePool st (frefRelease p st) := by
  unfold frefRelease
  split
  · exact SamePool.refl st
  · split
    · exact ⟨rfl, rfl, rfl, rfl⟩
    · split <;> exact ⟨rfl, rfl, rfl, rfl⟩

theorem frefRetain_samePool (p : Option Nat) (st : State) :
    SamePool st (frefRetain p st) := by
  unfold frefRetain
  split
  · exact SamePool.refl st
  · exact ⟨rfl, rfl, rfl, rfl⟩

@[simp] theorem setAt_regs (i : Nat) (r : Region) (st : State) :
    (setAt i r st).regs = st.regs.set i r := rfl

@[simp] theorem insertAt_regs (i : Nat) (r : Region) (st : State) :
    (insertAt i r st).regs = st.regs.insertIdx i r := rfl

@[simp] theorem removeAt_regs (i : Nat) (st : State) :
    (removeAt i st).regs = st.regs.eraseIdx i := rfl

theorem unmapRegion_samePool (start stop i : Nat) (r : Region) (st : State) :
    SamePool st (unmapRegion start stop i r st).2 := by
  have hrelease : SamePool st (if r.kind = .rFile then frefRelease r.fref st else st) := by
    split
    · exact frefRelease_samePool _ st
    · exact SamePool.refl st
  have hretain : SamePool st (if r.kind = .rFile then frefRetain r.fref st else st) := by
    split
    · exact frefRetain_samePool _ st
    · exact SamePool.refl st
  unfold unmapRegion
  dsimp only
  split
  · exact hrelease.trans ⟨rfl, rfl, rfl, rfl⟩
  · split
    · exact ⟨rfl, rfl, rfl, rfl⟩
    · split
      · exact ⟨rfl, rfl, rfl, rfl⟩
      · exact hretain.trans ⟨rfl, rfl, rfl, rfl⟩

/-- One turn replaces the region by its pieces and moves behind them. -/
theorem unmapRegion_regs (start stop : Nat) {pre post : List Region} {r : Region}
    {st : State} (hregs : st.regs = pre ++ r :: post) (hlive : r.kind ≠ .rFree) :
    (unmapRegion start stop pre.length r st).2.regs =
        pre ++ carve start stop r ++ post ∧
      (unmapRegion start stop pre.length r st).1 =
        (pre ++ carve start stop r).length := by
  have hrelease :
      (if r.kind = .rFile then frefRelease r.fref st else st).regs = st.regs := by
    split
    · exact frefRelease_regs _ st
    · rfl
  have hretain :
      (if r.kind = .rFile then frefRetain r.fref st else st).regs = st.regs := by
    split
    · exact frefRetain_regs _ st
    · rfl
  unfold unmapRegion carve
  dsimp only
  simp only [hlive, ↓reduceIte]
  split
  · simp only [setAt_regs, hrelease, hregs, set_boundary]
    simp
  · split
    · simp only [insertAt_regs, setAt_regs, hregs, set_boundary, insertIdx_after_boundary]
      simp
    · split
      · simp only [insertAt_regs, setAt_regs, hregs, set_boundary, insertIdx_after_boundary]
        simp
      · simp only [insertAt_regs, setAt_regs, hretain, hregs, set_boundary,
          insertIdx_after_boundary, insertIdx_after_boundary_two]
        simp

/-! The loops as functions on the rest of the table -/

/-- The rest of the table after the unmap loop. -/
def carveAll (start stop : Nat) : List Region → List Region
  | [] => []
  | r :: rest =>
      if r.base < stop then carve start stop r ++ carveAll start stop rest
      else r :: rest

theorem carve_ne_nil (start stop : Nat) (r : Region) : carve start stop r ≠ [] := by
  unfold carve
  dsimp only
  repeat' split
  all_goals exact List.cons_ne_nil _ _

theorem length_le_carveAll (start stop : Nat) (post : List Region) :
    post.length ≤ (carveAll start stop post).length := by
  induction post with
  | nil => exact Nat.le_refl _
  | cons r rest ih =>
      unfold carveAll
      split
      · have hpos := List.length_pos_iff.mpr (carve_ne_nil start stop r)
        rw [List.length_cons, List.length_append]
        omega
      · exact Nat.le_refl _

/-- The turns of the unmap loop from `st` to `st'`, with `pre` behind the index
and the second list ahead of it. -/
inductive UnmapTurns (start stop : Nat) :
    List Region → List Region → State → State → Prop
  | done {pre : List Region} {st : State} : UnmapTurns start stop pre [] st st
  | beyond {pre post : List Region} {r : Region} {st : State} : ¬ r.base < stop →
      UnmapTurns start stop pre (r :: post) st st
  | free {pre post : List Region} {r : Region} {st st' : State} : r.base < stop →
      r.kind = .rFree → UnmapTurns start stop (pre ++ [r]) post st st' →
      UnmapTurns start stop pre (r :: post) st st'
  | cut {pre post : List Region} {r : Region} {ans ans' : PwriteAnswers}
      {st st₁ st' : State} : r.base < stop → r.kind ≠ .rFree →
      st.regs = pre ++ r :: post → unmapWriteback start stop r ans st = .ok (ans', st₁) →
      UnmapTurns start stop (pre ++ carve start stop r) post
        (unmapRegion start stop pre.length r st₁).2 st' →
      UnmapTurns start stop pre (r :: post) st st'

theorem unmapLoop_turns {start stop fuel : Nat} {pre post : List Region}
    {ans ans' : PwriteAnswers} {st st' : State} (hregs : st.regs = pre ++ post)
    (hfuel : post.length ≤ fuel)
    (h : unmapLoop start stop fuel pre.length ans st = .ok (ans', st')) :
    UnmapTurns start stop pre post st st' := by
  induction post generalizing fuel pre ans st with
  | nil =>
      have hdone : unmapLoop start stop fuel pre.length ans st = .ok (ans, st) := by
        cases fuel with
        | zero => rfl
        | succ fuel => simp [unmapLoop, hregs]
      have hst : st = st' := (Prod.mk.inj (Except.ok.inj (hdone.symm.trans h))).2
      rw [← hst]
      exact .done
  | cons r post ih =>
      obtain ⟨fuel, rfl⟩ : ∃ n, fuel = n + 1 :=
        ⟨fuel - 1, by simp only [List.length_cons] at hfuel; omega⟩
      have hget : st.regs[pre.length]? = some r := by rw [hregs, getElem?_boundary]
      have hfuel' : post.length ≤ fuel := by
        simp only [List.length_cons] at hfuel
        omega
      simp only [unmapLoop, hget] at h
      split at h
      case isFalse hge =>
          have hst : st = st' := (Prod.mk.inj (Except.ok.inj h)).2
          rw [← hst]
          exact .beyond hge
      case isTrue hlt =>
          by_cases hfree : r.kind = .rFree
          · simp only [hfree, ↓reduceIte] at h
            have hsplit : st.regs = (pre ++ [r]) ++ post := by simp [hregs]
            have hlen : pre.length + 1 = (pre ++ [r]).length := by simp
            rw [hlen] at h
            exact .free hlt hfree (ih hsplit hfuel' h)
          · simp only [hfree, ↓reduceIte] at h
            obtain ⟨⟨ans₁, st₁⟩, hwrite, hrest⟩ := bind_eq_ok h
            have hlogs := unmapWriteback_onlyLogs hwrite
            have hregs₁ : st₁.regs = pre ++ r :: post := hlogs.regs_eq.trans hregs
            obtain ⟨hregs₂, hidx⟩ := unmapRegion_regs start stop hregs₁ hfree
            dsimp only at hrest
            rw [hidx] at hrest
            exact .cut hlt hfree hregs hwrite (ih hregs₂ hfuel' hrest)

theorem UnmapTurns.regs {start stop : Nat} {pre post : List Region} {st st' : State}
    (h : UnmapTurns start stop pre post st st') (hregs : st.regs = pre ++ post) :
    st'.regs = pre ++ carveAll start stop post := by
  induction h with
  | done => exact hregs
  | beyond hge => simp only [carveAll, hge, ↓reduceIte, hregs]
  | free hlt hfree _ ih =>
      rw [ih (by simp [hregs])]
      simp [carveAll, hlt, carve, hfree]
  | cut hlt hlive hregs₀ hwrite _ ih =>
      have hregs₁ := (unmapWriteback_onlyLogs hwrite).regs_eq.trans hregs₀
      rw [ih (unmapRegion_regs start stop hregs₁ hlive).1]
      simp [carveAll, hlt]

theorem UnmapTurns.samePool {start stop : Nat} {pre post : List Region} {st st' : State}
    (h : UnmapTurns start stop pre post st st') : SamePool st st' := by
  induction h with
  | done => exact SamePool.refl _
  | beyond _ => exact SamePool.refl _
  | free _ _ _ ih => exact ih
  | cut _ _ _ hwrite _ ih =>
      have hlogs := (unmapWriteback_onlyLogs hwrite).samePool
      exact hlogs.trans ((unmapRegion_samePool _ _ _ _ _).trans ih)

/-- Two touching free regions as one. -/
def mergeRegions (r next : Region) : Region :=
  { r with len := wrap (r.len + next.len), dirty := r.dirty || next.dirty }

/-- The rest of the table after the merge loop. -/
def coalesceFrom (stop : Nat) : Region → List Region → List Region
  | r, [] => [r]
  | r, next :: rest =>
      if r.base ≤ stop then
        if r.kind = .rFree ∧ next.kind = .rFree ∧ r.endAddr = next.base then
          coalesceFrom stop (mergeRegions r next) rest
        else r :: coalesceFrom stop next rest
      else r :: next :: rest

theorem coalesceLoop_eq {stop fuel : Nat} {pre rest : List Region} {r : Region}
    {st : State} (hregs : st.regs = pre ++ r :: rest) (hfuel : rest.length ≤ fuel) :
    coalesceLoop stop fuel pre.length st =
      { st with regs := pre ++ coalesceFrom stop r rest } := by
  induction rest generalizing fuel pre r st with
  | nil =>
      have hget : st.regs[pre.length]? = some r := by rw [hregs, getElem?_boundary]
      have hnext : st.regs[pre.length + 1]? = none := by rw [hregs]; simp
      cases fuel with
      | zero => simp only [coalesceLoop, coalesceFrom, ← hregs]
      | succ fuel => simp only [coalesceLoop, hget, hnext, coalesceFrom, ← hregs]
  | cons next rest ih =>
      obtain ⟨fuel, rfl⟩ : ∃ n, fuel = n + 1 :=
        ⟨fuel - 1, by simp only [List.length_cons] at hfuel; omega⟩
      have hfuel' : rest.length ≤ fuel := by
        simp only [List.length_cons] at hfuel
        omega
      have hget : st.regs[pre.length]? = some r := by rw [hregs, getElem?_boundary]
      have hlen : pre.length + 1 = (pre ++ [r]).length := by simp
      have hsplit : st.regs = (pre ++ [r]) ++ next :: rest := by simp [hregs]
      have hnext : st.regs[pre.length + 1]? = some next := by
        rw [hlen, hsplit, getElem?_boundary]
      simp only [coalesceLoop, hget, hnext, coalesceFrom]
      by_cases hle : r.base ≤ stop
      · rw [if_pos hle, if_pos hle]
        by_cases htouch : r.kind = .rFree ∧ next.kind = .rFree ∧ r.endAddr = next.base
        · rw [if_pos htouch, if_pos htouch]
          have hmerged : (removeAt (pre.length + 1)
              (setAt pre.length (mergeRegions r next) st)).regs =
                pre ++ mergeRegions r next :: rest := by
            rw [removeAt_regs, setAt_regs, hregs, set_boundary, eraseIdx_after_boundary]
          exact ih hmerged hfuel'
        · rw [if_neg htouch, if_neg htouch, hlen, ih hsplit hfuel']
          simp
      · rw [if_neg hle, if_neg hle, ← hregs]

/-- Coalescing only rewrites the table. -/
theorem coalesceLoop_regs_only (stop fuel i : Nat) (st : State) :
    coalesceLoop stop fuel i st =
      { st with regs := (coalesceLoop stop fuel i st).regs } := by
  induction fuel generalizing i st with
  | zero => rfl
  | succ fuel ih =>
      unfold coalesceLoop
      split
      · split
        · split
          · rw [ih]
            rfl
          · exact ih _ _
        · rfl
      · rfl

theorem coalesceAround_regs_only (start stop : Nat) (st : State) :
    coalesceAround start stop st =
      { st with regs := (coalesceAround start stop st).regs } :=
  coalesceLoop_regs_only _ _ _ _

theorem coalesceAround_samePool (start stop : Nat) (st : State) :
    SamePool st (coalesceAround start stop st) := by
  rw [coalesceAround_regs_only]
  exact ⟨rfl, rfl, rfl, rfl⟩

end Mman

end WasixLibc
