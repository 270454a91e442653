/-
Room for the insertions.

Each call reserves two places before it changes the table.  A cut adds a piece
in front of the range or behind it, so an unmap needs at most two of them, and
one if the range starts where a region does.
-/
import WasixLibc.MmanFileRef

namespace WasixLibc

namespace Mman

open SpanList ListZipper

/-! `reserve` -/

/-- Each doubling adds at least one. -/
theorem le_growCap {need fuel newcap : Nat} (hpos : 0 < newcap) (hfuel : need ≤ newcap + fuel) :
    need ≤ growCap need fuel newcap := by
  induction fuel generalizing newcap with
  | zero => exact hfuel
  | succ fuel ih =>
      unfold growCap
      split
      · apply ih <;> omega
      · omega

theorem reserve_room {extra : Nat} {realloc : Bool} {st st' : State}
    (h : reserve extra realloc st = (true, st')) : st.regs.length + extra ≤ st'.capregs := by
  unfold reserve at h
  split at h
  · rename_i hroom
    rw [← (Prod.mk.inj h).2]
    exact hroom
  · cases realloc with
    | false => cases h
    | true =>
        rw [← (Prod.mk.inj h).2]
        apply le_growCap
        · split <;> omega
        · exact Nat.le_add_left _ _

/-- The capacity stays, and no insertion ran past it. -/
structure SameRoom (st st' : State) : Prop where
  overrun_eq : st'.overrun = st.overrun
  capregs_eq : st'.capregs = st.capregs

theorem SameRoom.refl (st : State) : SameRoom st st := ⟨rfl, rfl⟩

theorem SameRoom.trans {a b c : State} (hab : SameRoom a b) (hbc : SameRoom b c) :
    SameRoom a c :=
  ⟨hbc.overrun_eq.trans hab.overrun_eq, hbc.capregs_eq.trans hab.capregs_eq⟩

theorem OnlyLogs.sameRoom {st st' : State} (h : OnlyLogs st st') : SameRoom st st' :=
  ⟨h.overrun_eq, h.capregs_eq⟩

theorem insertAt_sameRoom {st : State} (i : Nat) (r : Region)
    (hroom : st.regs.length < st.capregs) : SameRoom st (insertAt i r st) := by
  refine ⟨?_, rfl⟩
  simp only [insertAt, Nat.not_le.mpr hroom, decide_false, Bool.or_false]

theorem setAt_sameRoom (i : Nat) (r : Region) (st : State) : SameRoom st (setAt i r st) :=
  ⟨rfl, rfl⟩

theorem length_insertAt {i : Nat} (r : Region) {st : State} (hi : i ≤ st.regs.length) :
    (insertAt i r st).regs.length = st.regs.length + 1 := by
  rw [insertAt_regs, List.length_insertIdx_of_le_length hi]

theorem length_setAt (i : Nat) (r : Region) (st : State) :
    (setAt i r st).regs.length = st.regs.length := by
  rw [setAt_regs, List.length_set]

/-! The pieces of a cut -/

/-- How many pieces a cut leaves, and where more than one come from. -/
theorem carve_length (start stop : Nat) (r : Region) :
    (carve start stop r).length = 1 ∨
      ((carve start stop r).length ≤ 3 ∧ stop < r.endAddr ∧
        (start ≤ r.base → (carve start stop r).length ≤ 2)) ∨
      ((carve start stop r).length = 2 ∧ r.base < start) := by
  unfold carve
  dsimp only
  split
  · exact Or.inl rfl
  · split
    · exact Or.inl rfl
    · rename_i hwhole
      have hinside : r.oend stop ≠ r.endAddr → stop < r.endAddr := by
        unfold Region.oend
        intro hne
        split at hne <;> omega
      have hfront : r.ostart start ≠ r.base → r.base < start := by
        unfold Region.ostart
        intro hne
        split at hne <;> omega
      split
      · rename_i hhead
        have hstop := hinside fun htail => hwhole ⟨hhead, htail⟩
        exact Or.inr (Or.inl ⟨by simp, hstop, fun _ => by simp⟩)
      · rename_i hhead
        split
        · exact Or.inr (Or.inr ⟨rfl, hfront hhead⟩)
        · rename_i htail
          have hbase := hfront hhead
          exact Or.inr (Or.inl ⟨Nat.le_refl _, hinside htail, fun hle => by omega⟩)

/-- The range ends inside `r`, so the regions behind are not reached. -/
theorem carveAll_behind {start stop : Nat} {r : Region} {rest : List Region}
    (hok : TableOk (r :: rest)) (hstop : stop < r.endAddr) :
    carveAll start stop rest = rest := by
  have hend := (hok.regions r List.mem_cons_self).endAddr_le_limit
  cases rest with
  | nil => rfl
  | cons q rest =>
      have hgap := (List.pairwise_cons.mp hok.ordered).1 q List.mem_cons_self
      exact if_neg (by omega)

/-- A range that starts at or before all regions leaves one piece more. -/
theorem carveAll_length_of_le {start stop : Nat} {post : List Region} (hok : TableOk post)
    (hstart : ∀ r ∈ post, start ≤ r.base) :
    (carveAll start stop post).length ≤ post.length + 1 := by
  induction post with
  | nil => exact Nat.zero_le _
  | cons r rest ih =>
      have hr := hstart r List.mem_cons_self
      have hrest := ih hok.tail fun q hq => hstart q (List.mem_cons_of_mem r hq)
      unfold carveAll
      split
      · rw [List.length_append, List.length_cons]
        rcases carve_length start stop r with hone | ⟨_, hstop, htwo⟩ | ⟨_, hfront⟩
        · omega
        · have hpieces := htwo hr
          rw [carveAll_behind hok hstop]
          omega
        · omega
      · exact Nat.le_succ _

/-- Only the first region can have a part in front of the range, and only one
can have a part behind it. -/
theorem carveAll_length_le {start stop : Nat} {post : List Region} (hok : TableOk post)
    (hbeyond : ∀ r ∈ post, Beyond start r) :
    (carveAll start stop post).length ≤ post.length + 2 := by
  induction post with
  | nil => exact Nat.zero_le _
  | cons r rest ih =>
      have hrest := ih hok.tail fun q hq => hbeyond q (List.mem_cons_of_mem r hq)
      unfold carveAll
      split
      · rw [List.length_append, List.length_cons]
        rcases carve_length start stop r with hone | ⟨hpieces, hstop, _⟩ | ⟨htwo, hfront⟩
        · omega
        · rw [carveAll_behind hok hstop]
          omega
        · -- the range starts inside `r`, so in front of the others
          have hlimit := (hbeyond r List.mem_cons_self).lt_limit
            (hok.regions r List.mem_cons_self)
          have hgap : ∀ q ∈ rest, start ≤ q.base := fun q hq => by
            have hbase := (List.pairwise_cons.mp hok.ordered).1 q hq
            omega
          have hbehind : (carveAll start stop rest).length ≤ rest.length + 1 :=
            carveAll_length_of_le hok.tail hgap
          omega
      · exact Nat.le_add_right _ _

/-! The unmap loop -/

theorem frefRelease_sameRoom (p : Option Nat) (st : State) :
    SameRoom st (frefRelease p st) := by
  unfold frefRelease
  split
  · exact .refl st
  · split
    · exact ⟨rfl, rfl⟩
    · split <;> exact ⟨rfl, rfl⟩

theorem frefRetain_sameRoom (p : Option Nat) (st : State) :
    SameRoom st (frefRetain p st) := by
  unfold frefRetain
  split <;> exact ⟨rfl, rfl⟩

/-- One turn has room if there is room for the table it leaves. -/
theorem unmapRegion_sameRoom (start stop i : Nat) (r : Region) {st : State}
    (hroom : (unmapRegion start stop i r st).2.regs.length ≤ st.capregs)
    (hi : i < st.regs.length) : SameRoom st (unmapRegion start stop i r st).2 := by
  have hrelease : SameRoom st (if r.kind = .rFile then frefRelease r.fref st else st) := by
    split
    · exact frefRelease_sameRoom _ st
    · exact .refl st
  have hretain : SameRoom st (if r.kind = .rFile then frefRetain r.fref st else st) ∧
      (if r.kind = .rFile then frefRetain r.fref st else st).regs = st.regs := by
    split
    · exact ⟨frefRetain_sameRoom _ st, frefRetain_regs _ st⟩
    · exact ⟨.refl st, rfl⟩
  unfold unmapRegion at hroom ⊢
  dsimp only at hroom ⊢
  split
  · exact hrelease.trans ⟨rfl, rfl⟩
  · rename_i hwhole
    rw [if_neg hwhole] at hroom
    have hset : ∀ q : Region, i + 1 ≤ (setAt i q st).regs.length := by
      intro q
      rw [length_setAt]
      exact hi
    split
    · rename_i hhead
      rw [if_pos hhead] at hroom
      dsimp only at hroom
      rw [length_insertAt _ (hset _), length_setAt] at hroom
      dsimp only
      refine (setAt_sameRoom _ _ st).trans (insertAt_sameRoom _ _ ?_)
      rw [length_setAt]
      exact hroom
    · rename_i hhead
      rw [if_neg hhead] at hroom
      split
      · rename_i htail
        rw [if_pos htail] at hroom
        dsimp only at hroom
        rw [length_insertAt _ (hset _), length_setAt] at hroom
        dsimp only
        refine (setAt_sameRoom _ _ st).trans (insertAt_sameRoom _ _ ?_)
        rw [length_setAt]
        exact hroom
      · rename_i htail
        rw [if_neg htail] at hroom
        dsimp only at hroom
        obtain ⟨hsame, hregs⟩ := hretain
        generalize (if r.kind = .rFile then frefRetain r.fref st else st) = kept at *
        have hone : i + 1 ≤ (setAt i (r.headTo (r.ostart start)) kept).regs.length := by
          rw [length_setAt, hregs]
          exact hi
        have hfirst := length_insertAt (freedRegion (r.ostart start)
          (wrapSub (r.oend stop) (r.ostart start))) hone
        rw [length_insertAt _ (by omega), hfirst, length_setAt, hregs] at hroom
        dsimp only
        refine (hsame.trans (setAt_sameRoom _ _ kept)).trans
          ((insertAt_sameRoom _ _ ?_).trans (insertAt_sameRoom _ _ ?_))
        · rw [length_setAt, hregs]
          show st.regs.length < kept.capregs
          rw [hsame.capregs_eq]
          omega
        · rw [hfirst, length_setAt, hregs]
          show st.regs.length + 1 < kept.capregs
          rw [hsame.capregs_eq]
          omega

theorem UnmapTurns.sameRoom {start stop : Nat} {pre post : List Region} {st st' : State}
    (h : UnmapTurns start stop pre post st st') (hregs : st.regs = pre ++ post)
    (hroom : st'.regs.length ≤ st.capregs) : SameRoom st st' := by
  induction h with
  | done => exact .refl _
  | beyond _ => exact .refl _
  | free _ _ _ ih => exact ih (by simp [hregs]) hroom
  | @cut pre post r ans ans' st st₁ st' hlt hlive _ hwrite hrest ih =>
      have hlogs := unmapWriteback_onlyLogs hwrite
      have hregs₁ : st₁.regs = pre ++ r :: post := hlogs.regs_eq.trans hregs
      obtain ⟨hregs₂, _⟩ := unmapRegion_regs start stop hregs₁ hlive
      have hfinal := hrest.regs hregs₂
      have hgrows := length_le_carveAll start stop post
      have hcap := (unmapRegion_samePool start stop pre.length r st₁).capregs_eq
      have hturn : SameRoom st₁ (unmapRegion start stop pre.length r st₁).2 := by
        apply unmapRegion_sameRoom
        · rw [hfinal, List.length_append] at hroom
          rw [hregs₂, List.length_append, hlogs.capregs_eq]
          omega
        · rw [hregs₁]
          simp
      refine (hlogs.sameRoom.trans hturn).trans (ih hregs₂ ?_)
      rw [hcap, hlogs.capregs_eq]
      exact hroom

/-- Unmapping has room if there is room for the table between its two
loops. -/
theorem unmapRange_sameRoom {start stop extra : Nat} {ans : PwriteAnswers} {st st' : State}
    (h : unmapRange start stop ans st = .ok st') (hroom : st.regs.length + extra ≤ st.capregs)
    (hpieces : ∀ pre post, st.regs = pre ++ post → firstOverlap start st.regs = pre.length →
      (carveAll start stop post).length ≤ post.length + extra) : SameRoom st st' := by
  obtain ⟨pre, post, st₁, hregs, hidx, hturns, rfl⟩ := unmapRange_spec h
  have hlength := hpieces pre post hregs hidx
  rw [hregs, List.length_append] at hroom
  have hturned : SameRoom st st₁ := by
    apply hturns.sameRoom hregs
    rw [hturns.regs hregs, List.length_append]
    omega
  rw [coalesceAround_regs_only]
  exact ⟨hturned.overrun_eq, hturned.capregs_eq⟩

/-! The calls -/

theorem sbrk_sameRoom {increment : Int} {grow : Option Nat} {st st' : State}
    {ret : Option Nat} (h : sbrk increment grow st = .ok (ret, st')) :
    SameRoom st st' ∧ st'.regs = st.regs := by
  unfold sbrk at h
  dsimp only at h
  split at h
  · cases h
    exact ⟨⟨rfl, rfl⟩, rfl⟩
  · split at h
    · cases h
    · split at h
      · cases h
      · split at h
        · cases h
          exact ⟨⟨rfl, rfl⟩, rfl⟩
        · cases h
          exact ⟨⟨rfl, rfl⟩, rfl⟩

theorem acquirePages_sameRoom {len : Nat} {kind : Kind} {prot flags : BitVec 32}
    {grow : Option Nat} {st st' : State} {idx : Option Nat}
    (h : acquirePages len kind prot flags grow st = .ok (idx, st'))
    (hroom : st.regs.length < st.capregs) : SameRoom st st' := by
  unfold acquirePages at h
  split at h
  · split at h
    · simp only [Except.ok.injEq, Prod.mk.injEq] at h
      rw [← h.2]
      exact .refl st
    · rename_i i _ _ r _
      simp only [Except.ok.injEq, Prod.mk.injEq] at h
      rw [← h.2, clearDirty_eq]
      split
      · have hinsert : SameRoom st (insertAt i { r with len := len }
            (setAt i { r with base := wrap (r.base + len), len := r.len - len } st)) := by
          refine (setAt_sameRoom _ _ st).trans (insertAt_sameRoom _ _ ?_)
          rw [length_setAt]
          exact hroom
        exact ⟨hinsert.overrun_eq, rfl⟩
      · exact ⟨rfl, rfl⟩
  · obtain ⟨⟨grown, st₁⟩, hsbrk, hrest⟩ := bind_eq_ok h
    have hsame : SameRoom st st₁ ∧ st₁.regs = st.regs := sbrk_sameRoom hsbrk
    cases grown with
    | none =>
        simp only [Except.ok.injEq, Prod.mk.injEq] at hrest
        rw [← hrest.2]
        exact ⟨hsame.1.overrun_eq, hsame.1.capregs_eq⟩
    | some base =>
        simp only [Except.ok.injEq, Prod.mk.injEq] at hrest
        rw [← hrest.2]
        refine hsame.1.trans (insertAt_sameRoom _ _ ?_)
        rw [hsame.2, hsame.1.capregs_eq]
        exact hroom

/-- `acquire_pages` adds one region at most. -/
theorem Acquired.length_le {st st' : State} {idx : Nat} {live : Region}
    (h : Acquired st st' idx live) : st'.regs.length ≤ st.regs.length + 1 := by
  rcases h with h | h
  · obtain ⟨pre, r, left, post, hregs, hregs', _, hfront⟩ := h.table
    have hleft : left.length ≤ 1 := by
      cases hfront with
      | whole => exact Nat.zero_le _
      | rest => exact Nat.le_refl _
    rw [hregs, hregs']
    simp only [List.length_append, List.length_cons]
    omega
  · obtain ⟨pre, post, hregs, hregs', _⟩ := h.table
    rw [hregs, hregs']
    simp only [List.length_append, List.length_cons]
    omega

theorem preadLoop_sameRoom {fd : Int} {ans : PreadAnswers} {body remaining total : Nat}
    {off : Int} {st st' : State} {res : Option Nat}
    (h : preadLoop fd ans body remaining off total st = .ok (res, st')) :
    SameRoom st st' := by
  fun_induction preadLoop fd ans body remaining off total st with
  | case1 =>
      cases h
      exact .refl _
  | case2 => cases h
  | case3 ans body remaining off total st st₁ ih =>
      have hstep : SameRoom st st₁ := ⟨rfl, rfl⟩
      exact hstep.trans (ih h)
  | case4 =>
      simp only [Except.ok.injEq, Prod.mk.injEq] at h
      rw [← h.2]
      exact ⟨rfl, rfl⟩
  | case5 =>
      simp only [Except.ok.injEq, Prod.mk.injEq] at h
      rw [← h.2]
      exact ⟨rfl, rfl⟩
  | case6 answer ans body remaining off total st part n st₁ _ ih =>
      have hstep : SameRoom st st₁ := ⟨rfl, rfl⟩
      exact hstep.trans (ih h)

section

variable {idx base : Nat} {length prot flags : BitVec 32} {fd offset : Int}
variable {ans : Answers} {st st₁ st₂ st' : State} {ret : Option Nat}

/-- Unmapping a new region cuts nothing in front of it, so the second of the
two places is enough. -/
theorem undoMap_sameRoom {off : Int} {n : Nat} {saved : Errno} {pwrites : PwriteAnswers}
    (hpos : 0 < pageCeil length.toNat) (hinv : PoolInv st)
    (hacq : Acquired st st₁ idx
      (liveRegion base (pageCeil length.toNat) .rFile prot flags))
    (hn : n ≤ pageCeil length.toNat)
    (htable : SameTable (updateAt idx (Region.backedBy off n) st₁) st₂)
    (hroom : st₂.regs.length + 1 ≤ st₂.capregs)
    (h : undoMap base (pageCeil length.toNat) saved pwrites st₂ = .ok (ret, st'))
    (hhost : ∀ base len, st'.grown = (base, len) :: st.grown → SbrkOk st base len) :
    SameRoom st₂ st' := by
  obtain ⟨st₃, hrun, rfl, rfl⟩ := undoMap_eq_ok h
  obtain ⟨_, hinv₂, _⟩ :=
    (hacq.newRegion_backedBy hpos hn htable).unmapped hinv hrun fun hg => hhost _ _ hg
  obtain ⟨front, behind, _, hregs', _⟩ := (hacq.installed_backedBy hn htable).table
  have hroom' : SameRoom st₂ st₃ := by
    refine unmapRange_sameRoom hrun hroom fun pre post hregs hidx => ?_
    have hok := hinv₂.tableOk
    rw [hregs] at hok hidx hregs'
    refine carveAll_length_of_le hok.append_right fun r hr => ?_
    rcases firstOverlap_reached hok hidx hregs' r hr with rfl | hbehind
    · exact Nat.le_refl _
    · have hle : base + pageCeil length.toNat ≤ r.base := hbehind
      omega
  exact hroom'.trans ⟨rfl, rfl⟩

theorem attachRef_sameRoom {n : Nat} (hpos : 0 < pageCeil length.toNat)
    (hinv : PoolInv st)
    (hacq : Acquired st st₁ idx
      (liveRegion base (pageCeil length.toNat) .rFile prot flags))
    (hn : n ≤ pageCeil length.toNat)
    (htable : SameTable (updateAt idx (Region.backedBy offset n) st₁) st₂)
    (hroom : st₂.regs.length + 1 ≤ st₂.capregs)
    (h : attachRef idx base (pageCeil length.toNat) fd ans st₂ = .ok (ret, st'))
    (hhost : ∀ base len, st'.grown = (base, len) :: st.grown → SbrkOk st base len) :
    SameRoom st₂ st' := by
  unfold attachRef at h
  split at h
  · split at h
    · rename_i e _
      have hsame := htable.trans (dupFailed_sameTable fd e st₂)
      have hundone := undoMap_sameRoom hpos hinv hacq hn hsame hroom h hhost
      exact ⟨hundone.overrun_eq, hundone.capregs_eq⟩
    · cases h
      exact ⟨rfl, rfl⟩
  · have hsame := htable.trans (setErrno_sameTable .enomem st₂)
    have hundone := undoMap_sameRoom hpos hinv hacq hn hsame hroom h hhost
    exact ⟨hundone.overrun_eq, hundone.capregs_eq⟩

theorem populate_sameRoom (hpos : 0 < pageCeil length.toNat) (hinv : PoolInv st)
    (hacq : Acquired st st₁ idx
      (liveRegion base (pageCeil length.toNat) .rFile prot flags))
    (hroom : st₁.regs.length + 1 ≤ st₁.capregs)
    (h : populate idx base (pageCeil length.toNat) prot flags fd offset ans st₁ =
      .ok (ret, st'))
    (hhost : ∀ base len, st'.grown = (base, len) :: st.grown → SbrkOk st base len) :
    SameRoom st₁ st' := by
  obtain ⟨⟨total, st₂⟩, hread, hrest⟩ := bind_eq_ok h
  have hsame := preadLoop_sameRoom hread
  obtain ⟨_, _, _, _, htable, _⟩ := preadLoop_spec hread
  have hroom₂ : st₂.regs.length + 1 ≤ st₂.capregs := by
    rw [htable.regs_eq, hsame.capregs_eq]
    exact hroom
  cases total with
  | none =>
      have hback : SameTable (updateAt idx (Region.backedBy 0 0) st₁) st₂ := by
        rw [hacq.updateAt_zero]
        exact htable
      exact hsame.trans
        (undoMap_sameRoom hpos hinv hacq (Nat.zero_le _) hback hroom₂ hrest hhost)
  | some total =>
      obtain ⟨bytes, rfl, hfill⟩ := preadLoop_filled hread
      dsimp only at hrest
      split at hrest
      · have hback := updateAt_sameTable idx (Region.backedBy offset bytes.length) hfill.table
        have hlength : (st₂.regs.modify idx (Region.backedBy offset bytes.length)).length + 1 ≤
            st₂.capregs := by
          rw [List.length_modify]
          exact hroom₂
        have hattached :=
          attachRef_sameRoom hpos hinv hacq hfill.length_le hback hlength hrest hhost
        exact hsame.trans ⟨hattached.overrun_eq, hattached.capregs_eq⟩
      · cases hrest
        exact hsame.trans ⟨rfl, rfl⟩

/-- No insertion of `mmap`, on any of its exits, runs past the array. -/
theorem mmap_overrun (hinv : PoolInv st)
    (h : mmap length prot flags fd offset ans st = .ok (ret, st'))
    (hhost : ∀ base len, st'.grown = (base, len) :: st.grown → SbrkOk st base len) :
    st'.overrun = st.overrun := by
  unfold mmap at h
  split at h
  · cases h
    rfl
  · rename_i hcheck
    have hpos := pageCeil_pos_of_check hcheck
    have hlen := pageCeil_lt length.toNat
    dsimp only at h
    split at h
    · rename_i hreserve
      obtain ⟨cap, rfl⟩ := reserve_spec hreserve
      cases h
      rfl
    · rename_i hreserve
      have hroom := reserve_room hreserve
      obtain ⟨cap, rfl⟩ := reserve_spec hreserve
      obtain ⟨⟨idx, st₁⟩, hacquire, hrest⟩ := bind_eq_ok h
      have hsame := acquirePages_sameRoom hacquire (Nat.lt_of_succ_lt hroom)
      cases idx with
      | none =>
          cases hrest
          exact hsame.overrun_eq
      | some idx =>
          obtain ⟨base, hacq⟩ := acquirePages_spec hpos hlen hacquire
          have hacq' := Acquired.of_capregs hacq
          have hbase := hacq'.base_eq
          dsimp only at hrest
          rw [hbase] at hrest
          by_cases hanon : flags &&& MAP_ANON = 0
          · simp only [hanon, ne_eq, not_true_eq_false, decide_false, Bool.false_eq_true,
              ↓reduceIte] at hrest hacq'
            have hroom₁ : st₁.regs.length + 1 ≤ st₁.capregs := by
              have hlength := hacq'.length_le
              have hcap : st₁.capregs = cap := hsame.capregs_eq
              rw [hcap]
              exact Nat.le_trans (Nat.succ_le_succ hlength) hroom
            exact (populate_sameRoom hpos hinv hacq' hroom₁ hrest hhost).overrun_eq.trans
              hsame.overrun_eq
          · simp only [hanon, ne_eq, not_false_eq_true, decide_true, ↓reduceIte,
              Except.ok.injEq, Prod.mk.injEq] at hrest
            rw [← hrest.2]
            exact hsame.overrun_eq

end

theorem munmap_overrun {addr length : BitVec 32} {ans : Answers} {st st' : State} {ret : Int}
    (hok : TableOk st.regs) (h : munmap addr length ans st = .ok (ret, st')) :
    st'.overrun = st.overrun := by
  unfold munmap at h
  dsimp only at h
  split at h
  · cases h
    rfl
  split at h
  · cases h
    rfl
  split at h
  · rename_i hreserve
    obtain ⟨cap, rfl⟩ := reserve_spec hreserve
    cases h
    rfl
  · rename_i hreserve
    have hroom := reserve_room hreserve
    obtain ⟨cap, rfl⟩ := reserve_spec hreserve
    obtain ⟨st₁, hrun, hrest⟩ := bind_eq_ok h
    cases hrest
    have hsame := unmapRange_sameRoom hrun hroom fun pre post hregs hidx => by
      have hsplit : TableOk (pre ++ post) := hregs ▸ hok
      have hbeyond := firstOverlap_beyond hsplit (hregs ▸ hidx)
      exact carveAll_length_le hsplit.append_right hbeyond
    exact hsame.overrun_eq

/-! Runs -/

theorem Step.overrun {st st' : State} {l : Label} (h : Step SbrkOk st l st')
    (hinv : PoolInv st) : st'.overrun = st.overrun := by
  cases h with
  | @call c ans ret _ _ hexec hhost =>
      cases c with
      | mmap length prot flags fd offset =>
          obtain ⟨⟨p, st₁⟩, hrun, hrest⟩ := bind_eq_ok hexec
          cases hrest
          exact mmap_overrun hinv hrun hhost
      | munmap addr length =>
          obtain ⟨⟨n, st₁⟩, hrun, hrest⟩ := bind_eq_ok hexec
          cases hrest
          exact munmap_overrun hinv.tableOk hrun
      | msync addr length flags =>
          obtain ⟨⟨n, st₁⟩, hrun, hrest⟩ := bind_eq_ok hexec
          cases hrest
          exact (msync_onlyLogs hrun).overrun_eq
  | store mem => rfl

/-- In no run does an insertion shift the array past its capacity. -/
theorem run_overrun {labels : List Label} {st : State}
    (hrun : Run (Step SbrkOk) State.init labels st) : st.overrun = false := by
  induction hrun with
  | nil => rfl
  | snoc hprefix hstep ih =>
      rw [hstep.overrun (run_poolInv hprefix)]
      exact ih

namespace CapacityWitness

open FileRefWitness

/-- Cutting the middle out of a mapping takes both places. -/
theorem shattered_overrun : shattered.regs.length = 3 ∧ shattered.overrun = false :=
  ⟨by decide +kernel, run_overrun shattered_run⟩

end CapacityWitness

end Mman

end WasixLibc
