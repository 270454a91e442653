/-
The `pwrite` calls of `writeback`, `munmap` and `msync`.

`PwriteTrace` follows the resumed loop of one writeback.  The loops of the two
entry points make one such trace for each shared writable region they meet.
-/
import WasixLibc.MmanRun

namespace WasixLibc

namespace Mman

open SpanList ListZipper

/-- The calls of a loop that writes the `remaining` bytes at `body` to file
offset `off`; `true` if it wrote them all. -/
inductive PwriteTrace (ptr fd : Nat) : Nat → Nat → Int → List HostCall → Bool → Prop
  | done {body : Nat} {off : Int} : PwriteTrace ptr fd body 0 off [] true
  | again {body remaining : Nat} {off : Int} {calls : List HostCall} {all : Bool} :
      PwriteTrace ptr fd body (remaining + 1) off calls all →
      PwriteTrace ptr fd body (remaining + 1) off
        (.pwrite ptr fd body (remaining + 1) off (.err .eintr) :: calls) all
  | failed {body remaining : Nat} {off : Int} {e : Errno} : e ≠ .eintr →
      PwriteTrace ptr fd body (remaining + 1) off
        [.pwrite ptr fd body (remaining + 1) off (.err e)] false
  | part {body remaining n : Nat} {off : Int} {calls : List HostCall} {all : Bool} :
      n ≤ remaining + 1 →
      PwriteTrace ptr fd (body + n) (remaining + 1 - n) (off + n) calls all →
      PwriteTrace ptr fd body (remaining + 1) off
        (.pwrite ptr fd body (remaining + 1) off (.ok n) :: calls) all

theorem writebackLoop_trace {ptr fd : Nat} {ans ans' : PwriteAnswers}
    {body remaining : Nat} {off : Int} {st st' : State} {all : Bool}
    (h : writebackLoop ptr fd ans body remaining off st = .ok (all, ans', st')) :
    st'.dangling = st.dangling ∧ ∃ calls, st'.calls = st.calls ++ calls ∧
      PwriteTrace ptr fd body remaining off calls all := by
  fun_induction writebackLoop ptr fd ans body remaining off st with
  | case1 =>
      simp only [Except.ok.injEq, Prod.mk.injEq] at h
      obtain ⟨rfl, rfl, rfl⟩ := h
      exact ⟨rfl, [], by simp, .done⟩
  | case2 => cases h
  | case3 ans body remaining off st st₁ ih =>
      obtain ⟨hdangling, calls, hcalls, htrace⟩ := ih h
      refine ⟨hdangling, _, ?_, .again htrace⟩
      rw [hcalls]
      simp only [st₁, State.record, State.setErrno, List.append_assoc,
        List.singleton_append]
  | case4 e ans body remaining off st st₁ herr =>
      simp only [Except.ok.injEq, Prod.mk.injEq] at h
      obtain ⟨rfl, rfl, rfl⟩ := h
      exact ⟨rfl, _, rfl, .failed herr⟩
  | case5 count ans body remaining off st n st₁ ih =>
      obtain ⟨hdangling, calls, hcalls, htrace⟩ := ih h
      refine ⟨hdangling, _, ?_, .part (Nat.min_le_right _ _) htrace⟩
      rw [hcalls]
      simp only [st₁, n, State.record, List.append_assoc, List.singleton_append]

/-- `call` is a `pwrite` through `ptr` to the descriptor `fd` of bytes in
`[lo, hi)`, to the offset that belongs to them when `lo` has offset `off`. -/
def HostCall.PwriteAt (ptr fd lo hi : Nat) (off : Int) : HostCall → Prop
  | .pwrite ptr' fd' body nbyte off' _ =>
      (ptr' = ptr ∧ fd' = fd) ∧ lo ≤ body ∧ body + nbyte ≤ hi ∧
        off' = off + ((body - lo : Nat) : Int)
  | _ => False

/-- A `pwrite` that was interrupted or wrote something; true of other calls. -/
def HostCall.Progress : HostCall → Prop
  | .pwrite _ _ _ _ _ (.err e) => e = .eintr
  | .pwrite _ _ _ _ _ (.ok n) => 0 < n
  | _ => True

/-- `call` wrote the byte at `a` through `ptr` to offset `off` of the file open as
`fd`. -/
def HostCall.Wrote (ptr fd a : Nat) (off : Int) : HostCall → Prop
  | .pwrite ptr' fd' body _ off' (.ok n) =>
      (ptr' = ptr ∧ fd' = fd) ∧ body ≤ a ∧ a < body + n ∧
        off = off' + ((a - body : Nat) : Int)
  | _ => False

theorem PwriteTrace.pwriteAt {ptr fd body remaining : Nat} {off : Int}
    {calls : List HostCall} {all : Bool}
    (h : PwriteTrace ptr fd body remaining off calls all) :
    ∀ call ∈ calls, call.PwriteAt ptr fd body (body + remaining) off := by
  induction h with
  | done => simp
  | again _ ih =>
      intro call hcall
      rcases List.mem_cons.mp hcall with rfl | hcall
      · exact ⟨⟨rfl, rfl⟩, Nat.le_refl _, Nat.le_refl _, by simp⟩
      · exact ih call hcall
  | failed _ =>
      intro call hcall
      obtain rfl := List.mem_singleton.mp hcall
      exact ⟨⟨rfl, rfl⟩, Nat.le_refl _, Nat.le_refl _, by simp⟩
  | part hle _ ih =>
      intro call hcall
      rcases List.mem_cons.mp hcall with rfl | hcall
      · exact ⟨⟨rfl, rfl⟩, Nat.le_refl _, Nat.le_refl _, by simp⟩
      · have hrest := ih call hcall
        cases call with
        | pwrite ptr' fd' body' nbyte' off' result =>
            obtain ⟨hptr, hlow, hhigh, hoff⟩ := hrest
            refine ⟨hptr, by omega, by omega, ?_⟩
            rw [hoff]
            omega
        | _ => exact hrest.elim

/-- A loop whose calls all make progress writes every byte. -/
theorem PwriteTrace.wrote {ptr fd body remaining : Nat} {off : Int}
    {calls : List HostCall} {all : Bool}
    (h : PwriteTrace ptr fd body remaining off calls all)
    (hprogress : ∀ call ∈ calls, call.Progress) {a : Nat} (hlow : body ≤ a)
    (hhigh : a < body + remaining) :
    ∃ call ∈ calls, call.Wrote ptr fd a (off + ((a - body : Nat) : Int)) := by
  induction h with
  | done => omega
  | again _ ih =>
      obtain ⟨call, hcall, hwrote⟩ :=
        ih (fun c hc => hprogress c (List.mem_cons_of_mem _ hc)) hlow hhigh
      exact ⟨call, List.mem_cons_of_mem _ hcall, hwrote⟩
  | failed hne => exact absurd (hprogress _ List.mem_cons_self) hne
  | @part body remaining n off calls all hle _ ih =>
      by_cases hnow : a < body + n
      · exact ⟨_, List.mem_cons_self, ⟨rfl, rfl⟩, hlow, hnow, rfl⟩
      · obtain ⟨call, hcall, hwrote⟩ :=
          ih (fun c hc => hprogress c (List.mem_cons_of_mem _ hc)) (by omega) (by omega)
        have hoff : off + (n : Int) + ((a - (body + n) : Nat) : Int) =
            off + ((a - body : Nat) : Int) := by omega
        exact ⟨call, List.mem_cons_of_mem _ hcall, hoff ▸ hwrote⟩

/-! One region -/

/-- The bytes of `r` that a writeback of `[start, stop)` covers. -/
def Region.backedStop (r : Region) (stop : Nat) : Nat := r.clipBacked (r.oend stop)

/-- What is written back of `r` for the range `[start, stop)`, where `fd` has the
descriptor of each reference. -/
structure WroteBack (fd : Nat → Nat) (r : Region) (start stop : Nat)
    (calls : List HostCall) : Prop where
  sound : ∀ call ∈ calls, ∃ ptr, r.fref = some ptr ∧
    call.PwriteAt ptr (fd ptr) (r.ostart start) (r.backedStop stop)
      (r.off + ((r.ostart start - r.base : Nat) : Int))
  complete : (∀ call ∈ calls, call.Progress) → ∀ ptr, r.fref = some ptr →
    ∀ a, r.ostart start ≤ a → a < r.backedStop stop →
      ∃ call ∈ calls, call.Wrote ptr (fd ptr) a (r.off + ((a - r.base : Nat) : Int))

theorem writeback_wroteBack {r : Region} {start stop : Nat} {ans ans' : PwriteAnswers}
    {st st' : State} {all : Bool} (hfref : r.fref.isSome)
    (h : writeback r (r.ostart start) (r.oend stop) ans st = .ok (all, ans', st')) :
    ∃ calls, st'.calls = st.calls ++ calls ∧
      WroteBack (fun ptr => st.frefFd ptr) r start stop calls := by
  unfold writeback at h
  split at h
  · rename_i hempty
    simp only [Except.ok.injEq, Prod.mk.injEq] at h
    obtain ⟨_, _, rfl⟩ := h
    refine ⟨[], by simp, by simp, ?_⟩
    intro _ _ _ a hlow hhigh
    unfold Region.backedStop at hhigh
    omega
  · rename_i hsome
    split at h
    · rename_i hnone
      rw [hnone] at hfref
      cases hfref
    · rename_i ptr hptr
      obtain ⟨_, calls, hcalls, htrace⟩ := writebackLoop_trace h
      have hend : r.ostart start + (r.clipBacked (r.oend stop) - r.ostart start) =
          r.backedStop stop := by
        unfold Region.backedStop
        omega
      refine ⟨calls, hcalls, ?_, ?_⟩
      · intro call hcall
        have hat := htrace.pwriteAt call hcall
        rw [hend] at hat
        exact ⟨ptr, hptr, hat⟩
      · intro hprogress ptr' hptr' a hlow hhigh
        rw [hptr] at hptr'
        cases hptr'
        obtain ⟨call, hcall, hwrote⟩ := htrace.wrote hprogress hlow (hend.symm ▸ hhigh)
        have hbase : r.base ≤ r.ostart start := by
          rw [Region.ostart_eq_max]
          exact Nat.le_max_left _ _
        have hoff : r.off + ((r.ostart start - r.base : Nat) : Int) +
            ((a - r.ostart start : Nat) : Int) = r.off + ((a - r.base : Nat) : Int) := by
          omega
        exact ⟨call, hcall, hoff ▸ hwrote⟩

/-! The loops -/

def HostCall.IsClose : HostCall → Prop
  | .close .. => True
  | _ => False

/-- The calls of a loop over `regs` that writes back what lies in
`[start, stop)` and may close descriptors. -/
structure Swept (start stop : Nat) (regs : List Region) (calls : List HostCall) :
    Prop where
  sound : ∀ call ∈ calls, call.IsClose ∨
    ∃ r ∈ regs, r.isSharedWritable = true ∧ ∃ ptr fd, r.fref = some ptr ∧
      call.PwriteAt ptr fd (r.ostart start) (r.backedStop stop)
        (r.off + ((r.ostart start - r.base : Nat) : Int))
  complete : (regs.Pairwise fun a b => a.base ≤ b.base) → ∀ r ∈ regs, r.base < stop →
    r.isSharedWritable = true →
    ∃ own fd, (∀ call ∈ own, call ∈ calls) ∧ WroteBack fd r start stop own

theorem Swept.nil_of_base {start stop : Nat} {regs : List Region}
    (h : ∀ r ∈ regs.head?, stop ≤ r.base) : Swept start stop regs [] := by
  refine ⟨by simp, fun hsorted r hr hlt => ?_⟩
  cases regs with
  | nil => simp at hr
  | cons first rest =>
      have hfirst := h first (by simp)
      rcases List.mem_cons.mp hr with rfl | hr
      · omega
      · have hle := (List.pairwise_cons.mp hsorted).1 r hr
        omega

/-- One turn of a loop: `own` is what it wrote of `r`, then it closed. -/
theorem Swept.cons {fd : Nat → Nat} {start stop : Nat} {r : Region} {rest : List Region}
    {own closes calls : List HostCall} (hrest : Swept start stop rest calls)
    (hown : r.isSharedWritable = true → WroteBack fd r start stop own)
    (hnone : r.isSharedWritable = false → own = [])
    (hcloses : ∀ call ∈ closes, call.IsClose) :
    Swept start stop (r :: rest) (own ++ closes ++ calls) := by
  constructor
  · intro call hcall
    rcases List.mem_append.mp hcall with hcall | hcall
    · rcases List.mem_append.mp hcall with hcall | hcall
      · cases hshared : r.isSharedWritable with
        | false => simp [hnone hshared] at hcall
        | true =>
            obtain ⟨ptr, hptr, hat⟩ := (hown hshared).sound call hcall
            exact Or.inr ⟨r, List.mem_cons_self, hshared, ptr, fd ptr, hptr, hat⟩
      · exact Or.inl (hcloses call hcall)
    · rcases hrest.sound call hcall with hclose | ⟨q, hq, hat⟩
      · exact Or.inl hclose
      · exact Or.inr ⟨q, List.mem_cons_of_mem r hq, hat⟩
  · intro hsorted q hq hlt hshared
    rcases List.mem_cons.mp hq with rfl | hq
    · exact ⟨own, fd, fun call hcall => by simp [hcall], hown hshared⟩
    · obtain ⟨own', fd', hsub, hwrote⟩ :=
        hrest.complete (List.pairwise_cons.mp hsorted).2 q hq hlt hshared
      exact ⟨own', fd', fun call hcall => by simp [hsub call hcall], hwrote⟩

theorem Swept.skip {start stop : Nat} {r : Region} {rest : List Region}
    {calls : List HostCall} (hrest : Swept start stop rest calls)
    (hnot : ¬ r.isSharedWritable = true) : Swept start stop (r :: rest) calls := by
  have hown : r.isSharedWritable = true → WroteBack id r start stop [] :=
    fun hshared => absurd hshared hnot
  have hcons := hrest.cons hown (fun _ => rfl) (List.forall_mem_nil HostCall.IsClose)
  exact hcons

theorem isSharedWritable_fref {r : Region} (h : r.isSharedWritable = true) :
    r.fref.isSome = true := by
  simp only [Region.isSharedWritable, Bool.and_eq_true] at h
  exact h.1.2

theorem msyncLoop_swept {start stop : Nat} {regs : List Region} {result ret : Int}
    {ans : PwriteAnswers} {st st' : State}
    (h : msyncLoop start stop regs result ans st = .ok (ret, st')) :
    ∃ calls, st'.calls = st.calls ++ calls ∧ Swept start stop regs calls := by
  induction regs generalizing result ans st with
  | nil =>
      simp only [msyncLoop, Except.ok.injEq, Prod.mk.injEq] at h
      rw [← h.2]
      exact ⟨[], by simp, .nil_of_base (by simp)⟩
  | cons r rest ih =>
      simp only [msyncLoop] at h
      split at h
      · split at h
        · rename_i hshared
          obtain ⟨⟨all, ans₁, st₁⟩, hwrite, hrest⟩ := bind_eq_ok h
          obtain ⟨own, hown, hback⟩ :=
            writeback_wroteBack (isSharedWritable_fref hshared) hwrite
          obtain ⟨calls, hcalls, hswept⟩ := ih hrest
          refine ⟨own ++ [] ++ calls, ?_, hswept.cons (fun _ => hback) ?_ (by simp)⟩
          · rw [hcalls, hown]
            simp
          · intro hnot
            rw [hshared] at hnot
            cases hnot
        · rename_i hshared
          obtain ⟨calls, hcalls, hswept⟩ := ih h
          exact ⟨calls, hcalls, hswept.skip hshared⟩
      · rename_i hbase
        simp only [Except.ok.injEq, Prod.mk.injEq] at h
        rw [← h.2]
        refine ⟨[], by simp, .nil_of_base ?_⟩
        simpa using Nat.le_of_not_lt hbase

theorem frefRelease_calls (p : Option Nat) (st : State) :
    ∃ closes, (frefRelease p st).calls = st.calls ++ closes ∧
      ∀ call ∈ closes, call.IsClose := by
  unfold frefRelease
  split
  · exact ⟨[], by simp, by simp⟩
  · split
    · exact ⟨[], by simp, by simp⟩
    · split
      · exact ⟨_, rfl, by simp [HostCall.IsClose]⟩
      · exact ⟨[], by simp, by simp⟩

theorem frefRetain_calls (p : Option Nat) (st : State) :
    (frefRetain p st).calls = st.calls := by
  unfold frefRetain
  split <;> rfl

theorem unmapRegion_calls (start stop i : Nat) (r : Region) (st : State) :
    ∃ closes, (unmapRegion start stop i r st).2.calls = st.calls ++ closes ∧
      ∀ call ∈ closes, call.IsClose := by
  unfold unmapRegion
  dsimp only
  split
  · split
    · exact frefRelease_calls r.fref st
    · exact ⟨[], by simp [setAt], by simp⟩
  · split
    · exact ⟨[], by simp [setAt, insertAt], by simp⟩
    · split
      · exact ⟨[], by simp [setAt, insertAt], by simp⟩
      · refine ⟨[], ?_, by simp⟩
        split
        · simp [setAt, insertAt, frefRetain_calls]
        · simp [setAt, insertAt]

theorem unmapWriteback_wroteBack {start stop : Nat} {r : Region}
    {ans ans' : PwriteAnswers} {st st' : State}
    (h : unmapWriteback start stop r ans st = .ok (ans', st')) :
    ∃ own, st'.calls = st.calls ++ own ∧
      (r.isSharedWritable = true → WroteBack (fun ptr => st.frefFd ptr) r start stop own) ∧
      (r.isSharedWritable = false → own = []) := by
  unfold unmapWriteback at h
  split at h
  · rename_i hshared
    obtain ⟨⟨all, ans₁, st₁⟩, hwrite, hrest⟩ := bind_eq_ok h
    simp only [Except.ok.injEq, Prod.mk.injEq] at hrest
    obtain ⟨_, rfl⟩ := hrest
    obtain ⟨own, hown, hback⟩ := writeback_wroteBack (isSharedWritable_fref hshared) hwrite
    exact ⟨own, hown, fun _ => hback, fun hnot => by rw [hshared] at hnot; cases hnot⟩
  · rename_i hshared
    simp only [Except.ok.injEq, Prod.mk.injEq] at h
    obtain ⟨_, rfl⟩ := h
    exact ⟨[], by simp, fun hyes => absurd hyes hshared, fun _ => rfl⟩

/-- The calls of the unmap loop. -/
theorem UnmapTurns.swept {start stop : Nat} {pre post : List Region} {st st' : State}
    (h : UnmapTurns start stop pre post st st') :
    ∃ calls, st'.calls = st.calls ++ calls ∧ Swept start stop post calls := by
  induction h with
  | done => exact ⟨[], by simp, .nil_of_base (by simp)⟩
  | beyond hge =>
      refine ⟨[], by simp, .nil_of_base ?_⟩
      simpa using Nat.le_of_not_lt hge
  | free _ hfree _ ih =>
      obtain ⟨calls, hcalls, hswept⟩ := ih
      exact ⟨calls, hcalls, hswept.skip (by simp [Region.isSharedWritable, hfree])⟩
  | @cut pre post r ans ans' st st₁ st' _ _ _ hwrite _ ih =>
      obtain ⟨own, hown, hback, hnone⟩ := unmapWriteback_wroteBack hwrite
      obtain ⟨closes, hcloses, hclose⟩ := unmapRegion_calls start stop pre.length r st₁
      obtain ⟨calls, hcalls, hswept⟩ := ih
      refine ⟨own ++ closes ++ calls, ?_, hswept.cons hback hnone hclose⟩
      rw [hcalls, hcloses, hown]
      simp only [List.append_assoc]

end Mman

end WasixLibc
