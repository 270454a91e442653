/-
`arc4random_uniform`, draw by draw.
-/
import WasixLibc.Arc4random
import WasixLibc.RejectionSampling
import Mathlib.Data.Set.Card

namespace WasixLibc

namespace Arc4random

open RejectionSampling (accepted rejected card_accepted two_mul_card_rejected_lt)

/-- The draw ends the loop. -/
def Accepted (upperBound v : Word) : Prop := ¬ v < (1 + ~~~upperBound) % upperBound

instance (upperBound v : Word) : Decidable (Accepted upperBound v) :=
  inferInstanceAs (Decidable (¬ _))

section Uniform

variable {upperBound : Word}

/-- The minimum is the number of draws modulo the bound. -/
theorem min_toNat (hbound : 2 ≤ upperBound.toNat) :
    ((1 + ~~~upperBound) % upperBound).toNat = 4294967296 % upperBound.toNat := by
  have hlt := upperBound.isLt
  have hneg : (1 + ~~~upperBound).toNat = 4294967296 - upperBound.toNat := by
    rw [BitVec.toNat_add, BitVec.toNat_not]
    show (1 + (2 ^ 32 - 1 - upperBound.toNat)) % 2 ^ 32 = _
    omega
  rw [BitVec.toNat_umod, hneg]
  exact (Nat.mod_eq_sub_mod (by omega)).symm

theorem accepted_iff (hbound : 2 ≤ upperBound.toNat) (v : Word) :
    Accepted upperBound v ↔ 4294967296 % upperBound.toNat ≤ v.toNat := by
  unfold Accepted
  rw [BitVec.lt_def, min_toNat hbound]
  exact Nat.not_lt

/-- Sets of words are counted by their numbers. -/
theorem ncard_words (P : Nat → Prop) [DecidablePred P] :
    Set.ncard {v : Word | P v.toNat} = ((Finset.range 4294967296).filter P).card := by
  have himage : BitVec.toNat '' {v : Word | P v.toNat} =
      ((Finset.range 4294967296).filter P : Finset Nat) := by
    ext n
    simp only [Set.mem_image, Set.mem_ofPred_eq, Finset.coe_filter, Finset.mem_range]
    constructor
    · rintro ⟨v, hv, rfl⟩
      exact ⟨v.isLt, hv⟩
    · rintro ⟨hlt, hn⟩
      have htoNat : (BitVec.ofNat 32 n).toNat = n := Nat.mod_eq_of_lt hlt
      exact ⟨BitVec.ofNat 32 n, by rw [htoNat]; exact hn, htoNat⟩
  rw [← Set.ncard_image_of_injective _ (fun _ _ h => BitVec.eq_of_toNat_eq h), himage,
    Set.ncard_coe_finset]

theorem ncard_accepted (hbound : 2 ≤ upperBound.toNat) {residue : Word}
    (hresidue : residue < upperBound) :
    Set.ncard {v : Word | Accepted upperBound v ∧ v % upperBound = residue} =
      4294967296 / upperBound.toNat := by
  have hwords : {v : Word | Accepted upperBound v ∧ v % upperBound = residue} =
      {v : Word | 4294967296 % upperBound.toNat ≤ v.toNat ∧
        v.toNat % upperBound.toNat = residue.toNat} := by
    ext v
    simp only [Set.mem_ofPred_eq, accepted_iff hbound, ← BitVec.toNat_inj, BitVec.toNat_umod]
  rw [hwords, ncard_words (fun n => 4294967296 % upperBound.toNat ≤ n ∧
    n % upperBound.toNat = residue.toNat)]
  exact card_accepted (by omega) hresidue

theorem two_mul_ncard_rejected_lt (hbound : 2 ≤ upperBound.toNat) :
    2 * Set.ncard {v : Word | ¬ Accepted upperBound v} < 4294967296 := by
  have hlt := upperBound.isLt
  have hwords : {v : Word | ¬ Accepted upperBound v} =
      {v : Word | v.toNat < 4294967296 % upperBound.toNat} := by
    ext v
    simp only [Set.mem_ofPred_eq, accepted_iff hbound, Nat.not_le]
  rw [hwords, ncard_words (fun n => n < 4294967296 % upperBound.toNat)]
  exact two_mul_card_rejected_lt (by omega) (by omega)

variable {ndebug : Bool} {answer : RandomGet} {attempts : Nat} {s t : RngState}

/-- An accepted draw is the result, by its residue; a rejected one leaves the loop
where it was, in the state after it. -/
theorem arc4randomUniform_draw (hbound : 2 ≤ upperBound) {v : Word}
    (hdraw : arc4random ndebug answer s = some (v, t)) :
    arc4randomUniform ndebug answer (attempts + 1) s upperBound =
      if Accepted upperBound v then some (v % upperBound, t)
      else arc4randomUniform ndebug answer attempts t upperBound := by
  have hnot : ¬ upperBound < 2 := BitVec.not_lt.mpr hbound
  unfold arc4randomUniform
  rw [if_neg hnot, if_neg hnot, uniformLoop, hdraw]
  dsimp only
  by_cases hlow : v < (1 + ~~~upperBound) % upperBound
  · have hrejected : ¬ Accepted upperBound v := not_not_intro hlow
    rw [if_pos hlow, if_neg hrejected]
  · have haccepted : Accepted upperBound v := hlow
    rw [if_neg hlow, if_pos haccepted]
    rfl

theorem arc4randomUniform_lt (hbound : 2 ≤ upperBound) {r : Word}
    (h : arc4randomUniform ndebug answer attempts s upperBound = some (r, t)) :
    r < upperBound := by
  have hpos : 0 < upperBound := by
    rw [BitVec.lt_def]
    exact Nat.lt_of_lt_of_le (by decide) hbound
  unfold arc4randomUniform at h
  rw [if_neg (BitVec.not_lt.mpr hbound)] at h
  obtain ⟨drawn, _, heq⟩ := Option.map_eq_some_iff.mp h
  cases heq
  exact BitVec.umod_lt _ hpos

/-- Every result is below the bound, every residue is that of the same number of
accepted draws, and fewer than half of the draws are rejected. -/
theorem arc4random_uniform_exact (hbound : 2 ≤ upperBound) :
    (∀ {ndebug answer attempts s r t},
      arc4randomUniform ndebug answer attempts s upperBound = some (r, t) → r < upperBound) ∧
    (∀ {ndebug answer attempts s v t}, arc4random ndebug answer s = some (v, t) →
      arc4randomUniform ndebug answer (attempts + 1) s upperBound =
        if Accepted upperBound v then some (v % upperBound, t)
        else arc4randomUniform ndebug answer attempts t upperBound) ∧
    (∀ residue < upperBound,
      Set.ncard {v : Word | Accepted upperBound v ∧ v % upperBound = residue} =
        4294967296 / upperBound.toNat) ∧
    2 * Set.ncard {v : Word | ¬ Accepted upperBound v} < 4294967296 :=
  ⟨arc4randomUniform_lt hbound, arc4randomUniform_draw hbound,
    fun _ => ncard_accepted hbound, two_mul_ncard_rejected_lt hbound⟩

end Uniform

namespace UniformWitness

/-- Of the draws for a die 715827882 give each face. -/
theorem die_faces :
    Set.ncard {v : Word | Accepted 6 v ∧ v % 6 = 2} = 715827882 ∧
      2 * Set.ncard {v : Word | ¬ Accepted 6 v} < 4294967296 := by
  obtain ⟨_, _, hfaces, hrejected⟩ :=
    arc4random_uniform_exact (show (2 : Word) ≤ 6 by decide)
  exact ⟨hfaces 2 (by decide), hrejected⟩

end UniformWitness

end Arc4random

end WasixLibc
