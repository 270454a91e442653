/-
The macros of `fd_set`, a counted array without duplicates.

Setting a descriptor appends it unless it is there, and clearing one moves the
last one to its place.
-/
import Mathlib.Data.List.Nodup
import Mathlib.Data.List.Perm.Basic
import WasixLibc.ClampedTimeout

namespace WasixLibc

namespace Select

abbrev FD_SETSIZE : Nat := 1024

/-- `FD_ISSET` -/
def fdIsset (fd : BitVec 32) (set : FdSet) : Bool := set.any (· == fd)

/-- `FD_SET` -/
def fdSet (fd : BitVec 32) (set : FdSet) : FdSet :=
  if fdIsset fd set then set else set ++ [fd]

/-- `FD_CLR` -/
def fdClr (fd : BitVec 32) (set : FdSet) : FdSet :=
  if fdIsset fd set then (set.set (set.idxOf fd) (set.getLastD 0)).dropLast else set

/-- `FD_ZERO` -/
def fdZero (_ : FdSet) : FdSet := []

theorem fdIsset_iff {fd : BitVec 32} {set : FdSet} : fdIsset fd set = true ↔ fd ∈ set := by
  simp [fdIsset]

/-- What `FD_CLR` leaves is in another order than before. -/
theorem fdClr_perm (fd : BitVec 32) (set : FdSet) : (fdClr fd set).Perm (set.erase fd) := by
  unfold fdClr
  split
  · rename_i hmem
    obtain ⟨before, after, rfl, hbefore⟩ :=
      List.eq_append_cons_of_mem (fdIsset_iff.mp hmem)
    have hindex : (before ++ fd :: after).idxOf fd = before.length := by
      rw [List.idxOf_append_of_notMem hbefore, List.idxOf_cons_self, Nat.add_zero]
    have herase : (before ++ fd :: after).erase fd = before ++ after := by
      rw [List.erase_append_right _ hbefore, List.erase_cons_head]
    rw [hindex, herase, List.set_append_right _ _ (Nat.le_refl _), Nat.sub_self, List.set_cons_zero]
    obtain rfl | ⟨middle, last, rfl⟩ := List.eq_nil_or_concat after
    · simp
    · rw [List.concat_eq_append]
      have hlast : (before ++ fd :: (middle ++ [last])).getLastD 0 = last := by
        rw [← List.cons_append, ← List.append_assoc, List.getLastD_concat]
      rw [hlast, List.dropLast_append_cons, ← List.cons_append, List.dropLast_concat]
      exact (List.perm_append_singleton last middle).symm.append_left before
  · rename_i hmem
    rw [List.erase_of_not_mem fun h => hmem (fdIsset_iff.mpr h)]

/-- A set that fits in its array, with every descriptor once, as the macros build it. -/
structure DescriptorSet where
  fds : FdSet
  nodup : fds.Nodup
  length_le : fds.length ≤ FD_SETSIZE

namespace DescriptorSet

def zero : DescriptorSet := ⟨fdZero [], List.nodup_nil, Nat.zero_le _⟩

/-- There has to be room for one more. -/
def set (s : DescriptorSet) (fd : BitVec 32) (hroom : s.fds.length < FD_SETSIZE) :
    DescriptorSet where
  fds := fdSet fd s.fds
  nodup := by
    unfold fdSet
    split
    · exact s.nodup
    · rename_i hmem
      rw [← List.concat_eq_append]
      exact s.nodup.concat fun h => hmem (fdIsset_iff.mpr h)
  length_le := by
    unfold fdSet
    split
    · exact s.length_le
    · rw [List.length_append, List.length_singleton]
      omega

def clear (s : DescriptorSet) (fd : BitVec 32) : DescriptorSet where
  fds := fdClr fd s.fds
  nodup := (fdClr_perm fd s.fds).nodup_iff.mpr (s.nodup.erase fd)
  length_le := by
    rw [(fdClr_perm fd s.fds).length_eq]
    exact Nat.le_trans (List.length_erase_le) s.length_le

variable {s : DescriptorSet} {fd fd' : BitVec 32}

@[simp] theorem mem_set {hroom : s.fds.length < FD_SETSIZE} :
    fd' ∈ (s.set fd hroom).fds ↔ fd' = fd ∨ fd' ∈ s.fds := by
  unfold set fdSet
  dsimp only
  split
  · rename_i hmem
    constructor
    · exact .inr
    · rintro (rfl | h)
      · exact fdIsset_iff.mp hmem
      · exact h
  · rw [List.mem_append, List.mem_singleton, or_comm]

@[simp] theorem mem_clear : fd' ∈ (s.clear fd).fds ↔ fd' ≠ fd ∧ fd' ∈ s.fds := by
  unfold clear
  dsimp only
  rw [(fdClr_perm fd s.fds).mem_iff, s.nodup.mem_erase_iff]

end DescriptorSet

end Select

end WasixLibc
