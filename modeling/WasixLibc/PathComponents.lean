/-
The components of a list that a separator divides.

Some pieces between the separators do not count, the empty one among them, so
separators may be repeated, or stand at an end, without a change.
-/
import Mathlib.Data.List.Basic

namespace WasixLibc

universe u

variable {α : Type u} [DecidableEq α] {sep : α} {counts : List α → Bool}

/-- The pieces that count. -/
def components (sep : α) (counts : List α → Bool) (s : List α) : List (List α) :=
  (s.splitOn sep).filter counts

theorem components_append_sep (a b : List α) :
    components sep counts (a ++ sep :: b) = components sep counts a ++ components sep counts b := by
  unfold components
  rw [List.splitOn_append_cons_self, List.filter_append]

theorem components_nil (hempty : counts [] = false) : components sep counts [] = [] := by
  simp [components, hempty]

theorem components_sep_cons (hempty : counts [] = false) (s : List α) :
    components sep counts (sep :: s) = components sep counts s := by
  have hsplit : components sep counts ([] ++ sep :: s) = _ := components_append_sep [] s
  rwa [components_nil hempty] at hsplit

theorem components_append_singleton_sep (hempty : counts [] = false) (s : List α) :
    components sep counts (s ++ [sep]) = components sep counts s := by
  rw [components_append_sep, components_nil hempty, List.append_nil]

theorem components_dropWhile_sep (hempty : counts [] = false) (s : List α) :
    components sep counts (s.dropWhile (· == sep)) = components sep counts s := by
  induction s with
  | nil => rfl
  | cons a s ih =>
      by_cases ha : a = sep
      · subst ha
        rw [List.dropWhile_cons_of_pos (by simp), ih, components_sep_cons hempty]
      · rw [List.dropWhile_cons_of_neg (by simpa using ha)]

/-- Two parts meet between components. -/
def Boundary (sep : α) (a b : List α) : Prop :=
  a = [] ∨ a.getLast? = some sep ∨ b = [] ∨ b.head? = some sep

theorem components_append (hempty : counts [] = false) {a b : List α} (h : Boundary sep a b) :
    components sep counts (a ++ b) = components sep counts a ++ components sep counts b := by
  rcases h with rfl | hlast | rfl | hhead
  · rw [components_nil hempty, List.nil_append, List.nil_append]
  · obtain ⟨a, rfl⟩ := List.getLast?_eq_some_iff.mp hlast
    rw [List.append_assoc, List.singleton_append, components_append_sep,
      components_append_singleton_sep hempty]
  · rw [components_nil hempty, List.append_nil, List.append_nil]
  · obtain ⟨b, rfl⟩ := List.head?_eq_some_iff.mp hhead
    rw [components_append_sep, components_sep_cons hempty]

omit [DecidableEq α] in
/-- The text of the first pieces is the start of the whole text. -/
theorem intercalate_take (pieces : List (List α)) (n : Nat) :
    ∃ rest, [sep].intercalate pieces = [sep].intercalate (pieces.take (n + 1)) ++ rest ∧
      (rest = [] ∨ rest.head? = some sep) := by
  induction pieces generalizing n with
  | nil => exact ⟨[], rfl, Or.inl rfl⟩
  | cons first pieces ih =>
      cases pieces with
      | nil => exact ⟨[], by simp, Or.inl rfl⟩
      | cons second pieces =>
          cases n with
          | zero =>
              refine ⟨sep :: [sep].intercalate (second :: pieces), ?_, Or.inr rfl⟩
              simp [List.intercalate_cons_cons]
          | succ n =>
              obtain ⟨rest, heq, hrest⟩ := ih n
              refine ⟨rest, ?_, hrest⟩
              rw [List.take_succ_cons, List.take_succ_cons] at *
              rw [List.intercalate_cons_cons, List.intercalate_cons_cons, heq]
              simp only [List.append_assoc]

/-- `a` is the text of some pieces at the start of `s`, none of them cut. -/
def LeadingPieces (sep : α) (a s : List α) : Prop :=
  ∃ n, a = [sep].intercalate ((s.splitOn sep).take n)

theorem leadingPieces_iff {a s : List α} :
    LeadingPieces sep a s ↔
      a = [] ∨ ∃ rest, s = a ++ rest ∧ (rest = [] ∨ rest.head? = some sep) := by
  constructor
  · rintro ⟨n, rfl⟩
    cases n with
    | zero => exact Or.inl rfl
    | succ n =>
        obtain ⟨rest, heq, hrest⟩ := @intercalate_take α sep (s.splitOn sep) n
        rw [List.intercalate_splitOn] at heq
        exact Or.inr ⟨rest, heq, hrest⟩
  · rintro (rfl | ⟨rest, rfl, rfl | hhead⟩)
    · exact ⟨0, rfl⟩
    · refine ⟨((a ++ []).splitOn sep).length, ?_⟩
      rw [List.take_length, List.intercalate_splitOn, List.append_nil]
    · obtain ⟨rest, rfl⟩ := List.head?_eq_some_iff.mp hhead
      refine ⟨(a.splitOn sep).length, ?_⟩
      rw [List.splitOn_append_cons_self, List.take_left, List.intercalate_splitOn]

end WasixLibc
