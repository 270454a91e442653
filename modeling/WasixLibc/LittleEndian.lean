/-
Numbers as a fixed count of bytes, the least significant one first.
-/
import Mathlib.Algebra.Order.Ring.Nat
import Mathlib.Tactic.Ring

namespace WasixLibc

namespace LittleEndian

def toBytes : Nat → Nat → List UInt8
  | 0, _ => []
  | n + 1, x => UInt8.ofNat x :: toBytes n (x / 256)

def ofBytes : List UInt8 → Nat
  | [] => 0
  | b :: bytes => b.toNat + 256 * ofBytes bytes

@[simp] theorem length_toBytes (n x : Nat) : (toBytes n x).length = n := by
  induction n generalizing x with
  | zero => rfl
  | succ n ih => rw [toBytes, List.length_cons, ih]

theorem ofBytes_toBytes {n x : Nat} (hx : x < 256 ^ n) : ofBytes (toBytes n x) = x := by
  induction n generalizing x with
  | zero =>
      rw [Nat.pow_zero, Nat.lt_one_iff] at hx
      rw [hx]
      rfl
  | succ n ih =>
      have hquot : x / 256 < 256 ^ n := by
        rw [Nat.div_lt_iff_lt_mul (by decide)]
        exact hx
      have hbyte : (UInt8.ofNat x).toNat = x % 256 := UInt8.toNat_ofNat'
      rw [toBytes, ofBytes, ih hquot, hbyte]
      omega

end LittleEndian

end WasixLibc
