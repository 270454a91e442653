/-
Addresses rounded to an alignment by masks.

A mask of the high bits rounds down to a power of two, a mask of the low bits
leaves the remainder.  Intervals of addresses are apart if one ends before the
other starts.
-/
import Mathlib.Data.Nat.Bitwise

namespace WasixLibc

namespace AddressRange

section Mask

variable {w k : Nat} (x mask : BitVec w)

theorem and_highMask (hmask : ∀ i < w, mask.getLsbD i = decide (k ≤ i)) :
    x &&& mask = x >>> k <<< k := by
  apply BitVec.eq_of_getLsbD_eq
  intro i hi
  rw [BitVec.getLsbD_and, hmask i hi, BitVec.getLsbD_shiftLeft, BitVec.getLsbD_ushiftRight]
  by_cases hk : k ≤ i
  · have hback : k + (i - k) = i := by omega
    have hnot : ¬ i < k := by omega
    simp only [hk, hi, hback, hnot, decide_true, decide_false, Bool.and_true, Bool.not_false,
      Bool.true_and]
  · have hlt : i < k := by omega
    simp only [hk, hlt, decide_true, decide_false, Bool.and_false, Bool.not_true, Bool.false_and]

theorem toNat_and_highMask (hmask : ∀ i < w, mask.getLsbD i = decide (k ≤ i)) :
    (x &&& mask).toNat = x.toNat / 2 ^ k * 2 ^ k := by
  have hle : x.toNat / 2 ^ k * 2 ^ k ≤ x.toNat := Nat.div_mul_le_self _ _
  rw [and_highMask x mask hmask, BitVec.toNat_shiftLeft, BitVec.toNat_ushiftRight,
    Nat.shiftLeft_eq, Nat.shiftRight_eq_div_pow]
  exact Nat.mod_eq_of_lt (Nat.lt_of_le_of_lt hle x.isLt)

theorem toNat_and_sub_one {a : BitVec w} (ha : a.toNat = 2 ^ k) :
    (x &&& (a - 1)).toNat = x.toNat % a.toNat := by
  have hpos : 0 < 2 ^ k := Nat.two_pow_pos k
  have hk : 2 ^ k < 2 ^ w := ha ▸ a.isLt
  have hw : w ≠ 0 := by
    rintro rfl
    omega
  have hone : (1 : BitVec w).toNat = 1 := BitVec.toNat_one (Nat.pos_of_ne_zero hw)
  have hle : (1 : BitVec w) ≤ a := by
    rw [BitVec.le_def, hone, ha]
    exact hpos
  rw [BitVec.toNat_and, BitVec.toNat_sub_of_le hle, hone, ha, Nat.and_two_pow_sub_one_eq_mod]

end Mask

/-! Intervals -/

/-- `len` bytes from `start` on. -/
structure Interval where
  start : Nat
  len : Nat
deriving Repr, DecidableEq

namespace Interval

def stop (i : Interval) : Nat := i.start + i.len

/-- No byte is in both. -/
def Apart (i j : Interval) : Prop := i.stop ≤ j.start ∨ j.stop ≤ i.start

def Within (i j : Interval) : Prop := j.start ≤ i.start ∧ i.stop ≤ j.stop

theorem Within.refl (i : Interval) : i.Within i := ⟨Nat.le_refl _, Nat.le_refl _⟩

theorem Within.trans {i j k : Interval} (hij : i.Within j) (hjk : j.Within k) : i.Within k :=
  ⟨Nat.le_trans hjk.1 hij.1, Nat.le_trans hij.2 hjk.2⟩

theorem Within.apart {i i' j j' : Interval} (hi : i.Within i') (hj : j.Within j')
    (h : i'.Apart j') : i.Apart j := by
  rcases h with h | h
  · exact Or.inl (Nat.le_trans hi.2 (Nat.le_trans h hj.1))
  · exact Or.inr (Nat.le_trans hj.2 (Nat.le_trans h hi.1))

end Interval

end AddressRange

end WasixLibc
