/-
Calls that return.

A host that interrupts every call keeps the loops of `mmap` and `munmap` turning
for ever, so returning is relative to the number of answers that make progress.
With enough of them the one way not to return is the `abort` of `sbrk`.
-/
import WasixLibc.MmanFileRef

namespace WasixLibc

namespace Mman

open SpanList ListZipper

/-! Answers that make progress -/

/-- A `pwrite` that ends its loop or writes something. -/
def HostResult.wrote : HostResult Nat → Bool
  | .ok count => decide (0 < count)
  | .err e => decide (e ≠ .eintr)

/-- A `pread` that was not interrupted. -/
def HostResult.read : HostResult (List UInt8) → Bool
  | .ok _ => true
  | .err e => decide (e ≠ .eintr)

def wrotes (ans : PwriteAnswers) : Nat := ans.countP HostResult.wrote

def reads (ans : PreadAnswers) : Nat := ans.countP HostResult.read

/-- Each byte takes one answer at most. -/
theorem writebackLoop_returns {ptr fd : Nat} {ans : PwriteAnswers} {body remaining : Nat}
    {off : Int} {st : State} (hans : remaining ≤ wrotes ans) :
    ∃ done ans' st', writebackLoop ptr fd ans body remaining off st = .ok (done, ans', st') ∧
      wrotes ans ≤ wrotes ans' + remaining := by
  fun_induction writebackLoop ptr fd ans body remaining off st with
  | case1 ans body off st => exact ⟨true, ans, st, rfl, Nat.le_refl _⟩
  | case2 => exact absurd hans (Nat.not_succ_le_zero _)
  | case3 ans body remaining off st st₁ ih =>
      have hsame : wrotes (.err .eintr :: ans) = wrotes ans :=
        List.countP_cons_of_neg (by decide)
      rw [hsame] at hans ⊢
      exact ih hans
  | case4 e ans body remaining off st st₁ hintr =>
      have hmore : wrotes (.err e :: ans) = wrotes ans + 1 :=
        List.countP_cons_of_pos (by simpa [HostResult.wrote] using hintr)
      refine ⟨false, ans, st₁, rfl, ?_⟩
      omega
  | case5 count ans body remaining off st n st₁ ih =>
      rcases Nat.eq_zero_or_pos count with rfl | hpos
      · have hsame : wrotes (.ok 0 :: ans) = wrotes ans :=
          List.countP_cons_of_neg (by decide)
        rw [hsame] at hans ⊢
        have hn : n = 0 := Nat.zero_min _
        obtain ⟨done, ans', st', hrun, hleft⟩ := ih (by omega)
        exact ⟨done, ans', st', hrun, by omega⟩
      · have hmore : wrotes (.ok count :: ans) = wrotes ans + 1 :=
          List.countP_cons_of_pos (by simpa [HostResult.wrote] using hpos)
        rw [hmore] at hans ⊢
        have hn : 0 < n := Nat.lt_min.mpr ⟨hpos, Nat.succ_pos _⟩
        have hle : n ≤ remaining + 1 := Nat.min_le_right _ _
        obtain ⟨done, ans', st', hrun, hleft⟩ := ih (by omega)
        exact ⟨done, ans', st', hrun, by omega⟩

theorem writeback_returns {r : Region} {start stop : Nat} {ans : PwriteAnswers} (st : State)
    (hans : r.clipBacked stop - start ≤ wrotes ans) :
    ∃ done ans' st', writeback r start stop ans st = .ok (done, ans', st') ∧
      wrotes ans ≤ wrotes ans' + (r.clipBacked stop - start) := by
  unfold writeback
  split
  · exact ⟨true, ans, st, rfl, Nat.le_add_right _ _⟩
  · split
    · exact ⟨true, ans, _, rfl, Nat.le_add_right _ _⟩
    · exact writebackLoop_returns hans

/-- The bytes of `r` that the two passes over a range write back. -/
def Region.owed (start stop : Nat) (r : Region) : Nat :=
  if r.isSharedWritable then r.clipBacked (r.oend stop) - r.ostart start else 0

/-- The same for the regions in front of the first that starts behind the
range. -/
def owed (start stop : Nat) : List Region → Nat
  | [] => 0
  | r :: rest => if r.base < stop then r.owed start stop + owed start stop rest else 0

theorem unmapWriteback_returns {start stop : Nat} {r : Region} {ans : PwriteAnswers}
    (st : State) (hans : r.owed start stop ≤ wrotes ans) :
    ∃ ans' st', unmapWriteback start stop r ans st = .ok (ans', st') ∧
      wrotes ans ≤ wrotes ans' + r.owed start stop := by
  unfold unmapWriteback Region.owed at *
  split
  · rename_i hshared
    rw [if_pos hshared] at hans
    obtain ⟨done, ans', st', hrun, hleft⟩ := writeback_returns st hans
    rw [hrun]
    exact ⟨ans', st', rfl, hleft⟩
  · exact ⟨ans, st, rfl, Nat.le_add_right _ _⟩

theorem unmapLoop_returns {start stop fuel : Nat} {pre post : List Region}
    {ans : PwriteAnswers} {st : State} (hregs : st.regs = pre ++ post)
    (hfuel : post.length ≤ fuel) (hans : owed start stop post ≤ wrotes ans) :
    ∃ res, unmapLoop start stop fuel pre.length ans st = .ok res := by
  induction post generalizing fuel pre ans st with
  | nil =>
      cases fuel with
      | zero => exact ⟨_, rfl⟩
      | succ fuel => exact ⟨(ans, st), by simp [unmapLoop, hregs]⟩
  | cons r post ih =>
      obtain ⟨fuel, rfl⟩ : ∃ n, fuel = n + 1 :=
        ⟨fuel - 1, by simp only [List.length_cons] at hfuel; omega⟩
      have hfuel' : post.length ≤ fuel := Nat.le_of_succ_le_succ hfuel
      have hget : st.regs[pre.length]? = some r := by rw [hregs, getElem?_boundary]
      simp only [unmapLoop, hget]
      unfold owed at hans
      split
      · rename_i hlt
        rw [if_pos hlt] at hans
        split
        · have hsplit : st.regs = (pre ++ [r]) ++ post := by simp [hregs]
          have hlen : pre.length + 1 = (pre ++ [r]).length := by simp
          rw [hlen]
          exact ih hsplit hfuel' (by omega)
        · rename_i hlive
          obtain ⟨ans₁, st₁, hwrite, hleft⟩ := unmapWriteback_returns st
            (Nat.le_trans (Nat.le_add_right _ _) hans)
          have hlogs := unmapWriteback_onlyLogs hwrite
          have hregs₁ : st₁.regs = pre ++ r :: post := hlogs.regs_eq.trans hregs
          obtain ⟨hregs₂, hidx⟩ := unmapRegion_regs start stop hregs₁ hlive
          rw [hwrite]
          show ∃ res, unmapLoop start stop fuel (unmapRegion start stop pre.length r st₁).1
            ans₁ (unmapRegion start stop pre.length r st₁).2 = .ok res
          rw [hidx]
          exact ih hregs₂ hfuel' (by omega)
      · exact ⟨_, rfl⟩

/-- Unmapping returns if the host makes progress on what is written back. -/
theorem unmapRange_returns {start stop : Nat} {ans : PwriteAnswers} {st : State}
    (hans : ∀ pre post, st.regs = pre ++ post → firstOverlap start st.regs = pre.length →
      owed start stop post ≤ wrotes ans) :
    ∃ st', unmapRange start stop ans st = .ok st' := by
  obtain ⟨pre, post, hregs, hlen⟩ := exists_split (firstOverlap_le start st.regs)
  have hfuel : post.length ≤ st.regs.length := by
    rw [hregs, List.length_append]
    exact Nat.le_add_left _ _
  obtain ⟨res, hloop⟩ := unmapLoop_returns hregs hfuel (hans pre post hregs hlen.symm)
  unfold unmapRange
  rw [← hlen, hloop]
  exact ⟨_, rfl⟩

theorem preadLoop_returns {fd : Int} {ans : PreadAnswers} {body remaining total : Nat}
    {off : Int} {st : State} (hans : remaining ≤ reads ans) :
    ∃ res st', preadLoop fd ans body remaining off total st = .ok (res, st') ∧
      (res = none → .err st'.errno ∈ ans) := by
  fun_induction preadLoop fd ans body remaining off total st with
  | case1 => exact ⟨_, _, rfl, fun hnone => absurd hnone (Option.some_ne_none _)⟩
  | case2 => exact absurd hans (Nat.not_succ_le_zero _)
  | case3 ans body remaining off total st st₁ ih =>
      have hsame : reads (.err .eintr :: ans) = reads ans :=
        List.countP_cons_of_neg (by decide)
      rw [hsame] at hans
      obtain ⟨res, st', hrun, herrno⟩ := ih hans
      exact ⟨res, st', hrun, fun hnone => List.mem_cons_of_mem _ (herrno hnone)⟩
  | case4 e => exact ⟨_, _, rfl, fun _ => List.mem_cons_self⟩
  | case5 => exact ⟨_, _, rfl, fun hnone => absurd hnone (Option.some_ne_none _)⟩
  | case6 answer ans body remaining off total st part n st₁ hsome ih =>
      have hmore : reads (.ok answer :: ans) = reads ans + 1 := List.countP_cons_of_pos rfl
      rw [hmore] at hans
      have hn : 0 < n := Nat.pos_of_ne_zero hsome
      obtain ⟨res, st', hrun, herrno⟩ := ih (by omega)
      exact ⟨res, st', hrun, fun hnone => List.mem_cons_of_mem _ (herrno hnone)⟩

/-! The stages of `mmap` -/

/-- No free region is long enough. -/
def Unfit (len : Nat) (regs : List Region) : Prop :=
  ∀ r ∈ regs, r.kind = .rFree → r.len < len

theorem sbrk_returns {increment : Int} (grow : Option Nat) (st : State)
    (hpos : 0 < increment) (hpage : increment % PAGE = 0) :
    ∃ res, sbrk increment grow st = .ok res := by
  have hne : increment ≠ 0 := Int.ne_of_gt hpos
  have hsign : ¬ increment < 0 := Int.not_lt.mpr (Int.le_of_lt hpos)
  simp only [sbrk, hne, hpage, hsign, ne_eq, not_true_eq_false, ↓reduceIte]
  cases grow with
  | none => exact ⟨_, rfl⟩
  | some old => exact ⟨_, rfl⟩

theorem acquirePages_returns {len : Nat} (kind : Kind) (prot flags : BitVec 32)
    (grow : Option Nat) {st : State} (hinc : Unfit len st.regs →
      0 < toIntptr len ∧ toIntptr len % PAGE = 0) :
    ∃ res, acquirePages len kind prot flags grow st = .ok res := by
  cases hfind : st.regs.findIdx? fun r => decide (r.kind = .rFree) && decide (len ≤ r.len) with
  | some i =>
      obtain ⟨_, st', hrun, _⟩ := acquirePages_reuse kind prot flags grow hfind
      exact ⟨_, hrun⟩
  | none =>
      have hunfit : Unfit len st.regs := by
        intro r hr hfree
        have hno := List.findIdx?_eq_none_iff.mp hfind r hr
        simp only [hfree, decide_true, Bool.true_and, decide_eq_false_iff_not] at hno
        exact Nat.lt_of_not_le hno
      obtain ⟨hpos, hpage⟩ := hinc hunfit
      obtain ⟨⟨grown, st₁⟩, hsbrk⟩ := sbrk_returns grow st hpos hpage
      unfold acquirePages
      rw [hfind]
      dsimp only
      rw [hsbrk]
      cases grown with
      | none => exact ⟨_, rfl⟩
      | some base => exact ⟨_, rfl⟩

/-- Where a new region at the end of memory starts. -/
theorem acquirePages_grown {len idx base : Nat} {kind : Kind} {prot flags : BitVec 32}
    {grow : Option Nat} {st st' : State} (hpos : 0 < len) (hlt : len < 4294967296)
    (h : acquirePages len kind prot flags grow st = .ok (some idx, st'))
    (hgrown : st'.grown = (base, len) :: st.grown) :
    ∃ old, grow = some old ∧ base = wrap (old * PAGE) := by
  cases hfind : st.regs.findIdx? fun r => decide (r.kind = .rFree) && decide (len ≤ r.len) with
  | some i =>
      obtain ⟨_, st₁, hrun, hreused⟩ := acquirePages_reuse kind prot flags grow hfind
      have hsame := hrun.symm.trans h
      simp only [Except.ok.injEq, Prod.mk.injEq, Option.some.injEq] at hsame
      rw [← hsame.2, hreused.grown_eq] at hgrown
      exact absurd hgrown.symm (List.cons_ne_self _ _)
  | none =>
      simp only [acquirePages, hfind] at h
      obtain ⟨⟨grown, st₁⟩, hsbrk, hrest⟩ := bind_eq_ok h
      have hinc : toIntptr len ≠ 0 := by
        unfold toIntptr
        split <;> omega
      cases grown with
      | none => cases hrest
      | some top =>
          cases hrest
          cases grow with
          | none =>
              unfold sbrk at hsbrk
              rw [if_neg hinc] at hsbrk
              split at hsbrk
              · cases hsbrk
              · split at hsbrk <;> cases hsbrk
          | some old =>
              refine ⟨old, rfl, ?_⟩
              unfold sbrk at hsbrk
              rw [if_neg hinc] at hsbrk
              split at hsbrk
              · cases hsbrk
              · split at hsbrk
                · cases hsbrk
                · cases hsbrk
                  have hhead := List.head_eq_of_cons_eq hgrown
                  exact (Prod.mk.inj hhead).1.symm

/-- The error numbers a failing `mmap` sets: its own and those of the host. -/
def FailErrno (ans : Answers) (e : Errno) : Prop :=
  e = .einval ∨ e = .enomem ∨ e = .ebadf ∨ .err e ∈ ans.preads ∨ ans.dup = .err e

/-- The call returns, and a failure sets `errno`. -/
def Answered (ans : Answers) (run : Except Stop (Option Nat × State)) : Prop :=
  ∃ ret st', run = .ok (ret, st') ∧ (ret = none → FailErrno ans st'.errno)

section

variable {idx base : Nat} {length prot flags : BitVec 32} {fd offset : Int}
variable {ans : Answers} {st st₁ st₂ : State}

/-- A new region has no descriptor yet, so unmapping it asks the host nothing. -/
theorem undoMap_returns {off : Int} {n : Nat} {e : Errno}
    (hpos : 0 < pageCeil length.toNat) (hinv : PoolInv st)
    (hacq : Acquired st st₁ idx
      (liveRegion base (pageCeil length.toNat) .rFile prot flags))
    (hn : n ≤ pageCeil length.toNat)
    (htable : SameTable (updateAt idx (Region.backedBy off n) st₁) st₂)
    (hhost : st₂.grown = (base, pageCeil length.toNat) :: st.grown →
      SbrkOk st base (pageCeil length.toNat)) (he : FailErrno ans e) :
    Answered ans (undoMap base (pageCeil length.toNat) e ans.pwrites st₂) := by
  obtain ⟨_, hinv₂⟩ := (hacq.newRegion_backedBy hpos hn htable).poolInv hinv hhost
  obtain ⟨front, behind, _, hregs', _⟩ := (hacq.installed_backedBy hn htable).table
  have hnone : ∀ {stop : Nat} {post : List Region}, (∀ r ∈ post,
      r = (liveRegion base (pageCeil length.toNat) .rFile prot flags).backedBy off n ∨
        stop ≤ r.base) → owed base stop post = 0 := by
    intro stop post hpost
    induction post with
    | nil => rfl
    | cons r rest ih =>
        unfold owed
        split
        · rename_i hlt
          rcases hpost r List.mem_cons_self with rfl | hge
          · rw [ih fun q hq => hpost q (List.mem_cons_of_mem _ hq)]
            rfl
          · exact absurd hlt (Nat.not_lt.mpr hge)
        · rfl
  obtain ⟨st₃, hrun⟩ := @unmapRange_returns base (wrap (base + pageCeil length.toNat))
    ans.pwrites st₂ fun pre post hregs hidx => by
      have hok := hinv₂.tableOk
      rw [hregs] at hok hidx hregs'
      rw [hnone fun r hr => ?_]
      · exact Nat.zero_le _
      · rcases firstOverlap_reached hok hidx hregs' r hr with hsame | hbehind
        · exact Or.inl hsame
        · exact Or.inr (Nat.le_trans (Nat.mod_le _ _) hbehind)
  unfold undoMap
  rw [hrun]
  exact ⟨none, _, rfl, fun _ => he⟩

theorem attachRef_returns {n : Nat} (hpos : 0 < pageCeil length.toNat) (hinv : PoolInv st)
    (hacq : Acquired st st₁ idx
      (liveRegion base (pageCeil length.toNat) .rFile prot flags))
    (hn : n ≤ pageCeil length.toNat)
    (htable : SameTable (updateAt idx (Region.backedBy offset n) st₁) st₂)
    (hhost : st₂.grown = (base, pageCeil length.toNat) :: st.grown →
      SbrkOk st base (pageCeil length.toNat)) :
    Answered ans (attachRef idx base (pageCeil length.toNat) fd ans st₂) := by
  unfold attachRef
  split
  · split
    · rename_i e hdup
      apply undoMap_returns hpos hinv hacq hn (htable.trans (dupFailed_sameTable fd e st₂)) hhost
      exact Or.inr (Or.inr (Or.inr (Or.inr hdup)))
    · exact ⟨_, _, rfl, nofun⟩
  · apply undoMap_returns hpos hinv hacq hn (htable.trans (setErrno_sameTable .enomem st₂))
      hhost
    exact Or.inr (Or.inl rfl)

theorem populate_returns (hpos : 0 < pageCeil length.toNat) (hinv : PoolInv st)
    (hacq : Acquired st st₁ idx
      (liveRegion base (pageCeil length.toNat) .rFile prot flags))
    (hreads : pageCeil length.toNat ≤ reads ans.preads)
    (hhost : st₁.grown = (base, pageCeil length.toNat) :: st.grown →
      SbrkOk st base (pageCeil length.toNat)) :
    Answered ans
      (populate idx base (pageCeil length.toNat) prot flags fd offset ans st₁) := by
  obtain ⟨total, st₂, hread, herrno⟩ :=
    @preadLoop_returns fd ans.preads base _ 0 offset st₁ hreads
  unfold populate
  rw [hread]
  cases total with
  | none =>
      obtain ⟨_, _, _, _, htable, _⟩ := preadLoop_spec hread
      have hsame : SameTable (updateAt idx (Region.backedBy 0 0) st₁) st₂ := by
        rw [hacq.updateAt_zero]
        exact htable
      apply undoMap_returns hpos hinv hacq (Nat.zero_le _) hsame
      · rw [htable.grown_eq]
        exact hhost
      · exact Or.inr (Or.inr (Or.inr (Or.inl (herrno rfl))))
  | some total =>
      obtain ⟨bytes, rfl, hfill⟩ := preadLoop_filled hread
      have hsame := updateAt_sameTable idx (Region.backedBy offset bytes.length) hfill.table
      show Answered ans (if _ then _ else _)
      split
      · apply attachRef_returns hpos hinv hacq hfill.length_le hsame
        intro hgrown
        exact hhost (hsame.grown_eq.symm.trans hgrown)
      · exact ⟨_, _, rfl, nofun⟩

/-! `mmap` -/

/-- The call gets as far as `sbrk`. -/
structure AsksSbrk (length prot flags : BitVec 32) (fd offset : Int) (ans : Answers)
    (st : State) : Prop where
  accepted : mmapCheck length prot flags fd offset = none
  reserved : (reserve 2 ans.realloc st).1 = true
  unfit : Unfit (pageCeil length.toNat) st.regs

/-- The rounding does not wrap, what `sbrk` is asked for is a positive number
of pages, and the call returns. -/
structure Completes (length prot flags : BitVec 32) (fd offset : Int) (ans : Answers)
    (st : State) : Prop where
  rounds : length.toNat < PTRDIFF_MAX → length.toNat ≤ pageCeil length.toNat
  increment : AsksSbrk length prot flags fd offset ans st →
    0 < toIntptr (pageCeil length.toNat) ∧ toIntptr (pageCeil length.toNat) % PAGE = 0
  answered : Answered ans (mmap length prot flags fd offset ans st)

theorem mmapCheck_errno {e : Errno} (h : mmapCheck length prot flags fd offset = some e) :
    FailErrno ans e := by
  have hinval : FailErrno ans .einval := Or.inl rfl
  have hnomem : FailErrno ans .enomem := Or.inr (Or.inl rfl)
  have hbadf : FailErrno ans .ebadf := Or.inr (Or.inr (Or.inl rfl))
  unfold mmapCheck at h
  split at h
  · exact Option.some.inj h ▸ hinval
  split at h
  · exact Option.some.inj h ▸ hinval
  split at h
  · exact Option.some.inj h ▸ hinval
  split at h
  · exact Option.some.inj h ▸ hnomem
  split at h
  · exact Option.some.inj h ▸ hbadf
  split at h
  · exact Option.some.inj h ▸ hinval
  split at h
  · exact Option.some.inj h ▸ hnomem
  · cases h

/-- With a good increment the call returns. -/
theorem mmap_answered (hinv : PoolInv st) (hinc : AsksSbrk length prot flags fd offset ans st →
      0 < toIntptr (pageCeil length.toNat) ∧ toIntptr (pageCeil length.toNat) % PAGE = 0)
    (hreads : flags &&& MAP_ANON = 0 → pageCeil length.toNat ≤ reads ans.preads)
    (hhost : ∀ old, ans.memoryGrow = some old →
      SbrkOk st (wrap (old * PAGE)) (pageCeil length.toNat)) :
    Answered ans (mmap length prot flags fd offset ans st) := by
  unfold mmap
  split
  · rename_i e hcheck
    exact ⟨none, _, rfl, fun _ => mmapCheck_errno hcheck⟩
  · rename_i hcheck
    have hpos := pageCeil_pos_of_check hcheck
    have hlen := pageCeil_lt length.toNat
    have hnomem : FailErrno ans .enomem := Or.inr (Or.inl rfl)
    dsimp only
    split
    · exact ⟨none, _, rfl, fun _ => hnomem⟩
    · rename_i st' hreserve
      have hreserved : (reserve 2 ans.realloc st).1 = true := congrArg Prod.fst hreserve
      obtain ⟨cap, rfl⟩ := reserve_spec hreserve
      obtain ⟨⟨idx, st₁⟩, hacquire⟩ := @acquirePages_returns _
        (if decide (flags &&& MAP_ANON ≠ 0) then Kind.rAnon else Kind.rFile) prot flags
        ans.memoryGrow { st with capregs := cap } fun hunfit => hinc ⟨hcheck, hreserved, hunfit⟩
      rw [hacquire]
      cases idx with
      | none => exact ⟨none, _, rfl, fun _ => hnomem⟩
      | some idx =>
          obtain ⟨base, hacq⟩ := acquirePages_spec hpos hlen hacquire
          have hacq' := Acquired.of_capregs hacq
          show Answered ans (if _ then _ else populate idx
            (((st₁.regs[idx]?).map Region.base).getD 0) _ _ _ _ _ _ _)
          rw [hacq'.base_eq]
          by_cases hanon : flags &&& MAP_ANON = 0
          · simp only [hanon, ne_eq, not_true_eq_false, decide_false, Bool.false_eq_true,
              ↓reduceIte] at hacq' ⊢
            apply populate_returns hpos hinv hacq' (hreads hanon)
            intro hgrown
            obtain ⟨old, hold, rfl⟩ := acquirePages_grown hpos hlen hacquire hgrown
            exact hhost old hold
          · simp only [hanon, ne_eq, not_false_eq_true, decide_true, ↓reduceIte]
            exact ⟨_, _, rfl, nofun⟩

theorem toIntptr_pageCeil (hpos : 0 < pageCeil length.toNat)
    (hle : length.toNat ≤ 0x7FFF0000) :
    0 < toIntptr (pageCeil length.toNat) ∧ toIntptr (pageCeil length.toNat) % PAGE = 0 := by
  have hsmall : pageCeil length.toNat < 2147483648 := by
    unfold pageCeil wrap PAGE
    omega
  have hdvd : 65536 ∣ pageCeil length.toNat := pageCeil_dvd _
  unfold toIntptr PAGE
  rw [if_pos hsmall]
  constructor <;> omega

/-- `mmap` keeps its promises exactly when it does not ask `sbrk` for the pages
of a length above `0x7FFF0000`. -/
theorem mmap_completes_iff {labels : List Label}
    (hrun : Run (Step SbrkOk) State.init labels st)
    (hreads : flags &&& MAP_ANON = 0 → pageCeil length.toNat ≤ reads ans.preads)
    (hhost : ∀ old, ans.memoryGrow = some old →
      SbrkOk st (wrap (old * PAGE)) (pageCeil length.toNat)) :
    Completes length prot flags fd offset ans st ↔
      (AsksSbrk length prot flags fd offset ans st → length.toNat ≤ 0x7FFF0000) := by
  constructor
  · intro h hasks
    by_contra hlarge
    have hneg : toIntptr (pageCeil length.toNat) ≤ 0 := by
      have hlt := pageCeil_lt length.toNat
      have hceil := (mmapCheck_none hasks.accepted).2.1
      have hdvd : 65536 ∣ pageCeil length.toNat := pageCeil_dvd _
      unfold toIntptr
      rw [if_neg (by omega)]
      omega
    have hpos := (h.increment hasks).1
    omega
  · intro h
    have hinc : AsksSbrk length prot flags fd offset ans st →
        0 < toIntptr (pageCeil length.toNat) ∧ toIntptr (pageCeil length.toNat) % PAGE = 0 :=
      fun hasks => toIntptr_pageCeil (pageCeil_pos_of_check hasks.accepted) (h hasks)
    refine ⟨fun hlt => ?_, hinc, mmap_answered (run_poolInv hrun) hinc hreads hhost⟩
    have hsmall : length.toNat < 2147483647 := hlt
    unfold pageCeil wrap PAGE
    omega

end

namespace ReturnsWitness

/-- The longest request that `sbrk` takes. -/
theorem longest_completes :
    Completes 0x7FFF0000 3 0x22 (-1) 0 { memoryGrow := some 2 } State.init := by
  apply (mmap_completes_iff .nil (fun hanon => absurd hanon (by decide)) ?_).mpr
  · intro _
    decide
  · intro old hold
    obtain rfl : 2 = old := Option.some.inj hold
    exact ⟨by decide, by simp [State.init], by simp [State.init],
      Or.inl (by simp [State.init]; decide)⟩

/-- One byte more passes the checks, and its pages have the sign bit set. -/
theorem longer_aborts :
    mmapCheck 0x7FFF0001 3 0x22 (-1) 0 = none ∧
      toIntptr (pageCeil (0x7FFF0001 : BitVec 32).toNat) = -2147483648 ∧
      mmap 0x7FFF0001 3 0x22 (-1) 0 { memoryGrow := some 2 } State.init = .error .aborted ∧
      ¬ Completes 0x7FFF0001 3 0x22 (-1) 0 { memoryGrow := some 2 } State.init := by
  have haborts :
      mmap 0x7FFF0001 3 0x22 (-1) 0 { memoryGrow := some 2 } State.init = .error .aborted := rfl
  refine ⟨by decide, by decide, haborts, fun h => ?_⟩
  obtain ⟨_, _, hreturns, _⟩ := h.answered
  rw [haborts] at hreturns
  cases hreturns

end ReturnsWitness

end Mman

end WasixLibc
