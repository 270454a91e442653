/-
Strings in memory, ended by a terminator.

A copy checks the bounds of the memory it writes to; where it fits, the memory
holds the copied string afterwards, or the old string with it appended.
-/
import Mathlib.Data.List.TakeWhile

namespace WasixLibc

universe u

variable {α : Type u} {nul : α}

/-- `memory` starts with `s` and its terminator. -/
def HoldsString (nul : α) (memory s : List α) : Prop := ∃ rest, memory = s ++ nul :: rest

/-- What is before the first terminator. -/
def readString [DecidableEq α] (nul : α) (memory : List α) : List α := memory.takeWhile (· != nul)

/-- Write `s` and its terminator, unless that is out of bounds. -/
def copyString (nul : α) (memory : List α) (offset : Nat) (s : List α) : Option (List α) :=
  if offset + (s.length + 1) ≤ memory.length then
    some (memory.take offset ++ (s ++ nul :: memory.drop (offset + (s.length + 1))))
  else none

theorem readString_of_holds [DecidableEq α] {memory s : List α}
    (h : HoldsString nul memory s) (hs : nul ∉ s) :
    readString nul memory = s := by
  obtain ⟨rest, rfl⟩ := h
  unfold readString
  rw [List.takeWhile_append_of_pos, List.takeWhile_cons_of_neg (by simp), List.append_nil]
  intro a ha
  have hne : a ≠ nul := fun heq => hs (heq ▸ ha)
  simpa using hne

/-- A copy behind a string appends to it. -/
theorem copyString_append {memory s t : List α} (h : HoldsString nul memory s)
    (hfits : s.length + (t.length + 1) ≤ memory.length) :
    ∃ memory', copyString nul memory s.length t = some memory' ∧ HoldsString nul memory' (s ++ t) ∧
      memory'.length = memory.length := by
  obtain ⟨rest, rfl⟩ := h
  refine ⟨_, if_pos hfits, ?_, ?_⟩
  · rw [List.take_left, ← List.append_assoc]
    exact ⟨_, rfl⟩
  · simp only [List.length_append, List.length_cons, List.length_take, List.length_drop] at hfits ⊢
    omega

theorem copyString_zero {memory s : List α} (hfits : s.length + 1 ≤ memory.length) :
    ∃ memory', copyString nul memory 0 s = some memory' ∧ HoldsString nul memory' s ∧
      memory'.length = memory.length := by
  have hbound : 0 + (s.length + 1) ≤ memory.length := by omega
  refine ⟨_, if_pos hbound, ⟨_, rfl⟩, ?_⟩
  simp only [List.take_zero, List.nil_append, List.length_append, List.length_cons,
    List.length_drop]
  omega

end WasixLibc
