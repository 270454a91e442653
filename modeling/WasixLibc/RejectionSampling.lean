/-
Residues of uniform draws, with the lowest draws rejected.

Of `total` draws the lowest `total % bound` are rejected; each residue is then
that of equally many.
-/
import Mathlib.Data.Int.CardIntervalMod

namespace WasixLibc

namespace RejectionSampling

/-- The accepted draws with a residue. -/
def accepted (total bound residue : Nat) : Finset Nat :=
  (Finset.range total).filter (fun v => total % bound ≤ v ∧ v % bound = residue)

def rejected (total bound : Nat) : Finset Nat :=
  (Finset.range total).filter (fun v => v < total % bound)

variable {total bound residue : Nat}

/-- How many numbers below `n` have a residue. -/
theorem card_residue (hbound : 0 < bound) (hresidue : residue < bound) (n : Nat) :
    ((Finset.range n).filter (fun v => v % bound = residue)).card =
      n / bound + if residue < n % bound then 1 else 0 := by
  have hcount := Nat.count_modEq_card n hbound residue
  rw [Nat.count_eq_card_filter_range, Nat.mod_eq_of_lt hresidue] at hcount
  rw [← hcount]
  congr 1
  refine Finset.filter_congr (fun v _ => ?_)
  unfold Nat.ModEq
  rw [Nat.mod_eq_of_lt hresidue]

theorem card_accepted (hbound : 0 < bound) (hresidue : residue < bound) :
    (accepted total bound residue).card = total / bound := by
  have hmod := Nat.mod_lt total hbound
  have hle := Nat.mod_le total bound
  have hall := card_residue hbound hresidue total
  have hlow := card_residue hbound hresidue (total % bound)
  rw [Nat.div_eq_of_lt hmod, Nat.mod_mod, Nat.zero_add] at hlow
  have hsplit : (Finset.range total).filter (fun v => v % bound = residue) =
      accepted total bound residue ∪
        (Finset.range (total % bound)).filter (fun v => v % bound = residue) := by
    ext v
    simp only [accepted, Finset.mem_union, Finset.mem_filter, Finset.mem_range]
    omega
  have hdisjoint : Disjoint (accepted total bound residue)
      ((Finset.range (total % bound)).filter (fun v => v % bound = residue)) := by
    rw [Finset.disjoint_left]
    intro v hv hv'
    simp only [accepted, Finset.mem_filter, Finset.mem_range] at hv hv'
    omega
  rw [hsplit, Finset.card_union_of_disjoint hdisjoint, hlow] at hall
  omega

theorem card_rejected : (rejected total bound).card = total % bound := by
  have hrange : rejected total bound = Finset.range (total % bound) := by
    have hle := Nat.mod_le total bound
    ext v
    simp only [rejected, Finset.mem_filter, Finset.mem_range]
    omega
  rw [hrange, Finset.card_range]

/-- Fewer than half of the draws are rejected. -/
theorem two_mul_card_rejected_lt (hbound : 0 < bound) (hle : bound ≤ total) :
    2 * (rejected total bound).card < total := by
  have hmod := Nat.mod_lt total hbound
  have hdiv := Nat.div_add_mod total bound
  have hone : bound * 1 ≤ bound * (total / bound) :=
    Nat.mul_le_mul_left bound (Nat.div_pos hle hbound)
  rw [card_rejected]
  omega

end RejectionSampling

end WasixLibc
