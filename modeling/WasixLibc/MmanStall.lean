/-
When the loops over a file end.

The answers of the host form an endless sequence of which a loop takes as many
as it needs.  The loop that fills a mapping leaves on an answer of zero bytes;
the loop of `writeback` asks again, and a host that goes on writing nothing
keeps it.
-/
import WasixLibc.MmanCoverage
import Mathlib.Order.WellFounded

namespace WasixLibc

universe u

/-! Answers taken from an endless sequence -/

/-- The first `n` answers. -/
def firstAnswers {α : Type u} (answers : Nat → α) (n : Nat) : List α :=
  (List.range n).map answers

theorem firstAnswers_succ {α : Type u} (answers : Nat → α) (n : Nat) :
    firstAnswers answers (n + 1) = answers 0 :: firstAnswers (fun i => answers (i + 1)) n := by
  unfold firstAnswers
  rw [List.range_succ_eq_map, List.map_cons, List.map_map]
  rfl

/-- A sequence of numbers below a bound has a greatest one. -/
theorem exists_greatest {f : Nat → Nat} {bound : Nat} (hbound : ∀ n, f n < bound) :
    ∃ k, ∀ n, f n ≤ f k := by
  refine ⟨Function.argmin fun n => bound - f n, fun n => ?_⟩
  have hleast := Function.argmin_le (fun n => bound - f n) n
  have hn := hbound n
  have hk := hbound (Function.argmin fun n => bound - f n)
  omega

namespace Mman

/-! `writeback` -/

/-- The bytes one answer to `pwrite` reports. -/
def HostResult.count : HostResult Nat → Nat
  | .ok count => count
  | .err _ => 0

/-- An error that ends the loop. -/
def HostResult.Fails (answer : HostResult Nat) : Prop := ∃ e, answer = .err e ∧ e ≠ .eintr

/-- What the first `n` answers report together. -/
def written (answers : Nat → HostResult Nat) : Nat → Nat
  | 0 => 0
  | n + 1 => (answers 0).count + written (fun i => answers (i + 1)) n

theorem written_succ (answers : Nat → HostResult Nat) (n : Nat) :
    written answers (n + 1) = written answers n + (answers n).count := by
  induction n generalizing answers with
  | zero => simp [written]
  | succ n ih =>
      rw [written, ih, written]
      omega

theorem written_mono {answers : Nat → HostResult Nat} {m n : Nat} (hle : m ≤ n) :
    written answers m ≤ written answers n := by
  induction hle with
  | refl => exact Nat.le_refl _
  | step _ ih =>
      rw [written_succ]
      omega

/-- From some answer on the host writes nothing and reports no error, with
bytes left to write and no error before. -/
def Stalls (answers : Nat → HostResult Nat) (remaining : Nat) : Prop :=
  ∃ k, (∀ i, i < k → ¬ (answers i).Fails) ∧ written answers k < remaining ∧
    ∀ i, k ≤ i → answers i = .ok 0

/-- The first `n` answers let the loop go. -/
def LetsGo (answers : Nat → HostResult Nat) (remaining n : Nat) : Prop :=
  (∃ i, i < n ∧ (answers i).Fails) ∨ remaining ≤ written answers n

/-- The first answer only repeats the call for the bytes that are left. -/
theorem letsGo_succ {answers : Nat → HostResult Nat} {remaining n : Nat}
    (hgoes : ¬ (answers 0).Fails) :
    LetsGo answers remaining (n + 1) ↔
      LetsGo (fun i => answers (i + 1)) (remaining - (answers 0).count) n := by
  unfold LetsGo
  refine or_congr ⟨?_, ?_⟩ ?_
  · rintro ⟨i, hi, hfails⟩
    cases i with
    | zero => exact absurd hfails hgoes
    | succ i => exact ⟨i, Nat.lt_of_succ_lt_succ hi, hfails⟩
  · rintro ⟨i, hi, hfails⟩
    exact ⟨i + 1, Nat.succ_lt_succ hi, hfails⟩
  · rw [written]
    omega

/-- The loop has returned after `n` answers exactly if they let it go. -/
theorem writebackLoop_ok_iff {ptr fd : Nat} {answers : Nat → HostResult Nat} {n body : Nat}
    {remaining : Nat} {off : Int} {st : State} :
    (∃ res, writebackLoop ptr fd (firstAnswers answers n) body remaining off st = .ok res) ↔
      LetsGo answers remaining n := by
  induction n generalizing answers body remaining off st with
  | zero =>
      cases remaining with
      | zero => exact ⟨fun _ => Or.inr (Nat.zero_le _), fun _ => ⟨_, rfl⟩⟩
      | succ remaining =>
          refine ⟨?_, fun h => ?_⟩
          · rintro ⟨res, hrun⟩
            cases hrun
          rcases h with ⟨i, hi, _⟩ | hle
          · exact absurd hi (Nat.not_lt_zero i)
          · exact absurd hle (Nat.not_succ_le_zero _)
  | succ n ih =>
      rw [firstAnswers_succ]
      cases remaining with
      | zero =>
          refine ⟨fun _ => Or.inr (Nat.zero_le _), fun _ => ?_⟩
          unfold writebackLoop
          exact ⟨_, rfl⟩
      | succ remaining =>
          cases hanswer : answers 0 with
          | ok count =>
              have hgoes : ¬ (answers 0).Fails := by
                rintro ⟨e, he, _⟩
                rw [hanswer] at he
                cases he
              have hleft : remaining + 1 - min count (remaining + 1) =
                  remaining + 1 - (answers 0).count := by
                rw [hanswer]
                show remaining + 1 - min count (remaining + 1) = remaining + 1 - count
                omega
              rw [letsGo_succ hgoes, ← hleft]
              unfold writebackLoop
              exact ih
          | err e =>
              unfold writebackLoop
              by_cases hintr : e = .eintr
              · have hgoes : ¬ (answers 0).Fails := by
                  rintro ⟨e', he', hne⟩
                  rw [hanswer] at he'
                  cases he'
                  exact hne hintr
                have hleft : remaining + 1 - (answers 0).count = remaining + 1 := by
                  rw [hanswer]
                  rfl
                rw [letsGo_succ hgoes, hleft]
                simp only [hintr, ↓reduceIte]
                exact ih
              · simp only [hintr, ↓reduceIte]
                exact ⟨fun _ => Or.inl ⟨0, Nat.succ_pos n, e, hanswer, hintr⟩, fun _ => ⟨_, rfl⟩⟩

/-- After finitely many interruptions the only way not to be let go is to be
stalled. -/
theorem letsGo_iff_not_stalls {answers : Nat → HostResult Nat} {remaining : Nat}
    (hintr : ∃ m, ∀ i, m ≤ i → answers i ≠ .err .eintr) :
    (∃ n, LetsGo answers remaining n) ↔ ¬ Stalls answers remaining := by
  constructor
  · rintro ⟨n, hgo⟩ ⟨k, hgoes, hleft, hzero⟩
    rcases hgo with ⟨i, _, hfails⟩ | hdone
    · rcases Nat.lt_or_ge i k with hlt | hge
      · exact hgoes i hlt hfails
      · obtain ⟨e, he, _⟩ := hfails
        rw [hzero i hge] at he
        cases he
    · have hstill : ∀ d, written answers (k + d) = written answers k := by
        intro d
        induction d with
        | zero => rfl
        | succ d ih =>
            rw [← Nat.add_assoc, written_succ, ih, hzero _ (Nat.le_add_right k d)]
            rfl
      have hn := hstill n
      have hmono := @written_mono answers n (k + n) (Nat.le_add_left n k)
      omega
  · intro hnot
    by_contra hnever
    have hgoes : ∀ i, ¬ (answers i).Fails := fun i hfails =>
      hnever ⟨i + 1, Or.inl ⟨i, Nat.lt_succ_self i, hfails⟩⟩
    have hleft : ∀ n, written answers n < remaining := fun n =>
      Nat.lt_of_not_le fun hle => hnever ⟨n, Or.inr hle⟩
    obtain ⟨m, hm⟩ := hintr
    obtain ⟨k, hk⟩ := exists_greatest hleft
    refine hnot ⟨max k m, fun i _ => hgoes i, hleft _, fun i hi => ?_⟩
    have hmono := @written_mono answers k i (by omega)
    have hgreatest := hk (i + 1)
    rw [written_succ] at hgreatest
    cases hanswer : answers i with
    | ok count =>
        rw [hanswer] at hgreatest
        have hzero : count = 0 := by
          have hcount : written answers i + count ≤ written answers k := hgreatest
          omega
        rw [hzero]
    | err e =>
        refine absurd ⟨e, hanswer, fun heintr => ?_⟩ (hgoes i)
        exact hm i (by omega) (heintr ▸ hanswer)

/-- `writeback` returns after finitely many answers. -/
def WritebackEnds (r : Region) (start stop : Nat) (answers : Nat → HostResult Nat)
    (st : State) : Prop :=
  ∃ n res, writeback r start stop (firstAnswers answers n) st = .ok res

/-- For every region and range and every sequence of answers with finitely many
interruptions, the loop ends unless the host stalls it. -/
theorem writebackEnds_iff {r : Region} {start stop : Nat} {answers : Nat → HostResult Nat}
    {st : State} (hintr : ∃ m, ∀ i, m ≤ i → answers i ≠ .err .eintr) :
    WritebackEnds r start stop answers st ↔
      ¬ (r.fref.isSome ∧ Stalls answers (r.clipBacked stop - start)) := by
  unfold WritebackEnds
  by_cases hempty : r.clipBacked stop ≤ start
  · have hnot : ¬ Stalls answers (r.clipBacked stop - start) := by
      rintro ⟨k, _, hleft, _⟩
      omega
    refine ⟨fun _ h => hnot h.2, fun _ => ⟨0, (true, [], st), ?_⟩⟩
    unfold writeback
    rw [if_pos hempty]
    rfl
  · unfold writeback
    simp only [if_neg hempty]
    cases r.fref with
    | none => exact ⟨fun _ h => Bool.false_ne_true h.1, fun _ => ⟨0, _, rfl⟩⟩
    | some ptr =>
        simp only [Option.isSome_some, true_and, writebackLoop_ok_iff]
        exact letsGo_iff_not_stalls hintr

namespace StallWitness

open FileRefWitness

/-- Five backed bytes, of which the host takes two and then the rest. -/
def inTwo (i : Nat) : HostResult Nat := if i = 0 then .ok 2 else .ok 3

theorem shared_backed : ∃ r ∈ shared.regs, r.fref.isSome = true ∧
    r.clipBacked r.limit - r.base = 5 := by decide +kernel

theorem shared_writebackEnds : ∃ r ∈ shared.regs, r.clipBacked r.limit - r.base = 5 ∧
    WritebackEnds r r.base r.limit inTwo shared := by
  obtain ⟨r, hr, _, hfive⟩ := shared_backed
  refine ⟨r, hr, hfive, (writebackEnds_iff ⟨0, fun i _ => ?_⟩).mpr ?_⟩
  · unfold inTwo
    split <;> simp
  · rintro ⟨_, k, _, _, hzero⟩
    have hlate := hzero (k + 1) (Nat.le_succ k)
    exact absurd hlate (by simp [inTwo])

/-- A host that writes nothing keeps the loop for ever. -/
theorem shared_not_writebackEnds : ∃ r ∈ shared.regs, r.clipBacked r.limit - r.base = 5 ∧
    ∀ n res, writeback r r.base r.limit (firstAnswers (fun _ => .ok 0) n) shared ≠ .ok res := by
  obtain ⟨r, hr, hfref, hfive⟩ := shared_backed
  refine ⟨r, hr, hfive, fun n res hrun => ?_⟩
  obtain ⟨ptr, hptr⟩ := Option.isSome_iff_exists.mp hfref
  unfold writeback at hrun
  rw [if_neg (by omega), hptr] at hrun
  rcases writebackLoop_ok_iff.mp ⟨res, hrun⟩ with ⟨_, _, e, he, _⟩ | hdone
  · cases he
  · have hnothing : ∀ m, written (fun _ => .ok 0) m = 0 := by
      intro m
      induction m with
      | zero => rfl
      | succ m ih => rw [written_succ, ih]; rfl
    rw [hnothing, hfive] at hdone
    exact absurd hdone (by decide)

end StallWitness

end Mman

end WasixLibc
