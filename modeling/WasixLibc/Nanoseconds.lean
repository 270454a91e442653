/-
A `struct timeval` in nanoseconds, and the 64-bit number the code makes of it.
-/
import WasixLibc.ClampedTimeout

namespace WasixLibc

namespace Select

namespace Timeval

def nanoseconds (t : Timeval) : Nat := (t.tvSec.toInt * 1000000000 + t.tvUsec.toInt * 1000).toNat

/-- No field is negative, and there are fewer microseconds than a second. -/
def ValidTime (t : Timeval) : Prop :=
  0 ≤ t.tvSec.toInt ∧ 0 ≤ t.tvUsec.toInt ∧ t.tvUsec.toInt < 1000000

instance (t : Timeval) : Decidable (ValidTime t) := inferInstanceAs (Decidable (_ ∧ _))

theorem toInt_eq_toNat {x : BitVec 64} (h : 0 ≤ x.toInt) : x.toInt = x.toNat := by
  have hlt := x.isLt
  rw [BitVec.toInt_eq_toNat_cond] at h ⊢
  split at h <;> omega

section

variable {t : Timeval}

theorem nanoseconds_eq (hsec : 0 ≤ t.tvSec.toInt) (husec : 0 ≤ t.tvUsec.toInt) :
    nanoseconds t = t.tvSec.toNat * 1000000000 + t.tvUsec.toNat * 1000 := by
  rw [nanoseconds, toInt_eq_toNat hsec, toInt_eq_toNat husec]
  omega

/-- The sum that the code makes is reduced to 64 bits. -/
theorem toNat_ts (hsec : 0 ≤ t.tvSec.toInt) (husec : 0 ≤ t.tvUsec.toInt) :
    (t.tvSec * 1000000000 + t.tvUsec * 1000).toNat = nanoseconds t % 18446744073709551616 := by
  have hgiga : (1000000000 : BitVec 64).toNat = 1000000000 := by decide
  have hkilo : (1000 : BitVec 64).toNat = 1000 := by decide
  rw [nanoseconds_eq hsec husec, BitVec.toNat_add, BitVec.toNat_mul, BitVec.toNat_mul, hgiga, hkilo]
  omega

/-- The times are even, and the largest timestamp is odd. -/
theorem nanoseconds_even (hsec : 0 ≤ t.tvSec.toInt) (husec : 0 ≤ t.tvUsec.toInt) :
    nanoseconds t % 2 = 0 := by
  rw [nanoseconds_eq hsec husec]
  omega

end

end Timeval

end Select

end WasixLibc
