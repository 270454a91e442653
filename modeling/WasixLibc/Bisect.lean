/-
Binary search over a half-open interval of indices.

The search never inspects anything but a Boolean test at the midpoint, so it
is stated over an arbitrary test.  Without any monotonicity the result is only
locally a boundary; with monotonicity it is the boundary.
-/
import Mathlib.Tactic.Common
import Mathlib.Data.List.Basic
import Mathlib.Algebra.Order.Ring.Nat

namespace WasixLibc

/-- The loop `while (lo < hi)` of a lower-bound search: indices whose test
holds are discarded to the left.  Each turn shrinks `hi - lo`, so `fuel`
starting at `hi - lo` is never exhausted early. -/
def bisect (test : Nat → Bool) : Nat → Nat → Nat → Nat
  | 0, lo, _ => lo
  | fuel + 1, lo, hi =>
      if lo < hi then
        let mid := lo + (hi - lo) / 2
        if test mid then bisect test fuel (mid + 1) hi
        else bisect test fuel lo mid
      else lo

/-- `bound` separates the passed tests below it from the failed ones in
`[bound, size)`. -/
def IsBoundary (test : Nat → Bool) (size bound : Nat) : Prop :=
  bound ≤ size ∧ (∀ i, i < bound → test i = true) ∧
    ∀ i, bound ≤ i → i < size → test i = false

variable {test : Nat → Bool}

theorem bisect_bounds {fuel lo hi : Nat} (hle : lo ≤ hi) :
    lo ≤ bisect test fuel lo hi ∧ bisect test fuel lo hi ≤ hi := by
  induction fuel generalizing lo hi with
  | zero => exact ⟨Nat.le_refl _, hle⟩
  | succ fuel ih =>
      by_cases hactive : lo < hi
      · cases htest : test (lo + (hi - lo) / 2) with
        | true =>
            have hmid : lo + (hi - lo) / 2 + 1 ≤ hi := by omega
            obtain ⟨hlow, hhigh⟩ := ih hmid
            simp only [bisect, hactive, htest, ↓reduceIte]
            exact ⟨by omega, hhigh⟩
        | false =>
            have hmid : lo ≤ lo + (hi - lo) / 2 := by omega
            obtain ⟨hlow, hhigh⟩ := ih hmid
            simp only [bisect, hactive, htest, ↓reduceIte, Bool.false_eq_true]
            exact ⟨hlow, by omega⟩
      · simp only [bisect, hactive, ↓reduceIte]
        exact ⟨Nat.le_refl _, hle⟩

/-- Whatever the test is, a result strictly inside the interval has failed
it. -/
theorem bisect_test_eq_false {fuel lo hi : Nat} (hfuel : hi - lo ≤ fuel)
    (hle : lo ≤ hi) (hlt : bisect test fuel lo hi < hi) :
    test (bisect test fuel lo hi) = false := by
  induction fuel generalizing lo hi with
  | zero =>
      simp only [bisect] at hlt
      omega
  | succ fuel ih =>
      by_cases hactive : lo < hi
      · cases htest : test (lo + (hi - lo) / 2) with
        | true =>
            simp only [bisect, hactive, htest, ↓reduceIte] at hlt ⊢
            exact ih (by omega) (by omega) hlt
        | false =>
            simp only [bisect, hactive, htest, ↓reduceIte,
              Bool.false_eq_true] at hlt ⊢
            have hmid : lo ≤ lo + (hi - lo) / 2 := by omega
            rcases Nat.lt_or_ge (bisect test fuel lo (lo + (hi - lo) / 2))
              (lo + (hi - lo) / 2) with hstop | hstop
            · exact ih (by omega) hmid hstop
            · have hbound : bisect test fuel lo (lo + (hi - lo) / 2) ≤ lo + (hi - lo) / 2 :=
                (bisect_bounds hmid).2
              rw [Nat.le_antisymm hbound hstop]
              exact htest
      · simp only [bisect, hactive, ↓reduceIte] at hlt

/-- Against a boundary the search is exact. -/
theorem bisect_eq_boundary {fuel lo hi size bound : Nat}
    (hbound : IsBoundary test size bound) (hfuel : hi - lo ≤ fuel)
    (hlo : lo ≤ bound) (hhi : bound ≤ hi) (hsize : hi ≤ size) :
    bisect test fuel lo hi = bound := by
  induction fuel generalizing lo hi with
  | zero =>
      simp only [bisect]
      omega
  | succ fuel ih =>
      by_cases hactive : lo < hi
      · cases htest : test (lo + (hi - lo) / 2) with
        | true =>
            have hbelow : lo + (hi - lo) / 2 < bound := by
              by_contra hnot
              have hfalse := hbound.2.2 _ (Nat.le_of_not_lt hnot) (by omega)
              simp [htest] at hfalse
            simp only [bisect, hactive, htest, ↓reduceIte]
            exact ih (by omega) hbelow hhi hsize
        | false =>
            have habove : bound ≤ lo + (hi - lo) / 2 := by
              by_contra hnot
              have htrue := hbound.2.1 _ (Nat.lt_of_not_le hnot)
              simp [htest] at htrue
            simp only [bisect, hactive, htest, ↓reduceIte, Bool.false_eq_true]
            exact ih (by omega) hlo habove (by omega)
      · simp only [bisect, hactive, ↓reduceIte]
        omega

/-- A search over the whole index range needs its size as fuel. -/
theorem bisect_size_eq_boundary {size bound : Nat}
    (hbound : IsBoundary test size bound) : bisect test size 0 size = bound :=
  bisect_eq_boundary hbound (Nat.sub_le _ _) (Nat.zero_le _) hbound.1
    (Nat.le_refl _)

example : bisect (fun i => decide (i * i < 50)) 20 0 20 = 8 := by decide

/-! A boundary with a stray last index -/

/-- `bound` separates the passed tests from the failed ones, except that the
last index passes. -/
structure IsStray (test : Nat → Bool) (size bound : Nat) : Prop where
  below : ∀ i, i < bound → test i = true
  above : ∀ i, bound ≤ i → i + 1 < size → test i = false
  last : test (size - 1) = true
  lt_size : bound < size

/-- The binary digits of `n` begin with `11`. -/
def TwoOnes (n : Nat) : Prop := ∃ j, 3 * 2 ^ j ≤ n ∧ n < 4 * 2 ^ j

theorem not_twoOnes_two_pow (k : Nat) : ¬ TwoOnes (2 ^ k) := by
  rintro ⟨j, hle, hlt⟩
  have hpos : 0 < 2 ^ j := Nat.two_pow_pos j
  have hup : 2 ^ k < 2 ^ (j + 2) := by
    rw [Nat.pow_add]
    omega
  have hlow : 2 ^ (j + 1) < 2 ^ k := by
    rw [Nat.pow_succ]
    omega
  have hk := (Nat.pow_lt_pow_iff_right (by decide)).mp hup
  have hj := (Nat.pow_lt_pow_iff_right (by decide)).mp hlow
  omega

theorem twoOnes_three : TwoOnes 3 := ⟨0, by decide, by decide⟩

theorem twoOnes_half {n : Nat} (hn : 4 ≤ n) : TwoOnes (n / 2) ↔ TwoOnes n := by
  constructor
  · rintro ⟨j, hle, hlt⟩
    refine ⟨j + 1, ?_, ?_⟩
    · rw [Nat.pow_succ]
      omega
    · rw [Nat.pow_succ]
      omega
  · rintro ⟨j, hle, hlt⟩
    cases j with
    | zero =>
        rw [Nat.pow_zero] at hlt
        omega
    | succ j =>
        rw [Nat.pow_succ] at hle hlt
        exact ⟨j, by omega, by omega⟩

/-- The search runs past such a boundary if nothing lies between the boundary
and the stray index, or one index does and the midpoints never fall on it. -/
def StrayMissed (size bound : Nat) : Prop :=
  bound + 1 = size ∨ bound + 2 = size ∧ TwoOnes (size + 1)

theorem IsStray.boundary {size bound : Nat} (h : IsStray test size bound) :
    IsBoundary test (size - 1) bound := by
  have hlt := h.lt_size
  exact ⟨by omega, h.below, fun i hle hi => h.above i hle (by omega)⟩

theorem bisect_stray {fuel lo size bound : Nat} (hstray : IsStray test size bound)
    (hfuel : size - lo ≤ fuel) (hlo : lo ≤ bound) :
    ((bound + 1 = size ∨ bound + 2 = size ∧ TwoOnes (size - lo + 1)) →
      bisect test fuel lo size = size) ∧
    (¬ (bound + 1 = size ∨ bound + 2 = size ∧ TwoOnes (size - lo + 1)) →
      bisect test fuel lo size = bound) := by
  have hsize := hstray.lt_size
  induction fuel generalizing lo with
  | zero => omega
  | succ fuel ih =>
      have hactive : lo < size := Nat.lt_of_le_of_lt hlo hsize
      by_cases hlast : size - lo ≤ 2
      · -- the midpoint is the stray index
        have hmid : lo + (size - lo) / 2 = size - 1 := by omega
        have hend : bisect test (fuel + 1) lo size = size := by
          have hone : size - 1 + 1 = size := by omega
          simp only [bisect, hactive, hmid, hstray.last, ↓reduceIte, hone]
          obtain ⟨hlow, hhigh⟩ := @bisect_bounds test fuel size size (Nat.le_refl size)
          exact Nat.le_antisymm hhigh hlow
        refine ⟨fun _ => hend, fun hnot => absurd ?_ hnot⟩
        rcases Nat.lt_or_ge (bound + 1) size with hlt | hge
        · have htwo : size - lo + 1 = 3 := by omega
          exact Or.inr ⟨by omega, htwo ▸ twoOnes_three⟩
        · exact Or.inl (by omega)
      · have hhalf : size - (lo + (size - lo) / 2 + 1) + 1 = (size - lo + 1) / 2 := by omega
        have htwo : TwoOnes ((size - lo + 1) / 2) ↔ TwoOnes (size - lo + 1) :=
          twoOnes_half (by omega)
        rcases Nat.lt_or_ge (lo + (size - lo) / 2) bound with hbelow | habove
        · have htest := hstray.below _ hbelow
          simp only [bisect, hactive, htest, ↓reduceIte]
          have hrest := ih (Nat.sub_le_of_le_add (by omega)) hbelow
          rw [hhalf, htwo] at hrest
          exact hrest
        · have htest := hstray.above _ habove (by omega)
          simp only [bisect, hactive, htest, ↓reduceIte, Bool.false_eq_true]
          have hfound : bisect test fuel lo (lo + (size - lo) / 2) = bound :=
            bisect_eq_boundary hstray.boundary (by omega) hlo habove (by omega)
          refine ⟨fun hmissed => ?_, fun _ => hfound⟩
          rcases hmissed with hone | ⟨htwo', hlead⟩
          · omega
          · -- here three or four indices are left
            rw [← htwo] at hlead
            have hsmall : (size - lo + 1) / 2 = 2 := by omega
            rw [hsmall] at hlead
            exact absurd hlead (not_twoOnes_two_pow 1)

theorem bisect_size_eq_size {size bound : Nat} (hstray : IsStray test size bound)
    (hmissed : StrayMissed size bound) : bisect test size 0 size = size :=
  (bisect_stray hstray (Nat.sub_le _ _) (Nat.zero_le _)).1 hmissed

theorem bisect_size_eq_stray {size bound : Nat} (hstray : IsStray test size bound)
    (hfound : ¬ StrayMissed size bound) : bisect test size 0 size = bound :=
  (bisect_stray hstray (Nat.sub_le _ _) (Nat.zero_le _)).2 hfound

end WasixLibc
