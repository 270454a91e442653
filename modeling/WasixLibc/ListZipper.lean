/-
Array operations at the boundary between two parts of a list.

Code that walks an array with an index and edits it in place is read as a
list split into the part behind the index and the part ahead.
-/
import Mathlib.Tactic.Common
import Mathlib.Data.List.Basic
import Mathlib.Data.List.Chain

namespace WasixLibc

universe u

namespace ListZipper

variable {A : Type u} (pre post : List A) (a b : A)

theorem getElem?_boundary : (pre ++ a :: post)[pre.length]? = some a := by simp

theorem set_boundary : (pre ++ a :: post).set pre.length b = pre ++ b :: post := by
  simp [List.set_append_right]

theorem insertIdx_boundary : (pre ++ post).insertIdx pre.length a = pre ++ a :: post := by
  induction pre with
  | nil => simp
  | cons head tail ih => simp [ih]

/-- Insertion right behind the entry at the boundary. -/
theorem insertIdx_after_boundary :
    (pre ++ a :: post).insertIdx (pre.length + 1) b = pre ++ a :: b :: post := by
  simpa using insertIdx_boundary (pre ++ [a]) post b

theorem insertIdx_after_boundary_two (c : A) :
    (pre ++ a :: b :: post).insertIdx (pre.length + 2) c = pre ++ a :: b :: c :: post := by
  simpa using insertIdx_boundary (pre ++ [a, b]) post c

theorem eraseIdx_after_boundary :
    (pre ++ a :: b :: post).eraseIdx (pre.length + 1) = pre ++ a :: post := by
  simp [List.eraseIdx_append_of_length_le]

theorem modify_boundary (f : A → A) :
    (pre ++ a :: post).modify pre.length f = pre ++ f a :: post := by
  induction pre with
  | nil => simp
  | cons head tail ih => simpa using ih

variable {pre post a b}

theorem exists_split {l : List A} {i : Nat} (h : i ≤ l.length) :
    ∃ pre post, l = pre ++ post ∧ pre.length = i :=
  ⟨l.take i, l.drop i, (List.take_append_drop i l).symm, by simp [h]⟩

theorem exists_boundary {l : List A} {i : Nat} (h : i < l.length) :
    ∃ pre a post, l = pre ++ a :: post ∧ pre.length = i := by
  obtain ⟨pre, post, rfl, hlen⟩ := exists_split (Nat.le_of_lt h)
  cases post with
  | nil => simp [hlen] at h
  | cons a post => exact ⟨pre, a, post, rfl, hlen⟩

/-- A predicate that holds of what lies behind and of nothing ahead determines the
boundary. -/
theorem split_unique {P : A → Prop} {pre' post' : List A} (h : pre ++ post = pre' ++ post')
    (hpre : ∀ x ∈ pre, P x) (hpre' : ∀ x ∈ pre', P x) (hpost : ∀ x ∈ post, ¬ P x)
    (hpost' : ∀ x ∈ post', ¬ P x) : pre = pre' ∧ post = post' := by
  rcases List.append_eq_append_iff.mp h with ⟨mid, rfl, rfl⟩ | ⟨mid, rfl, rfl⟩
  · cases mid with
    | nil => simp
    | cons x mid => exact absurd (hpre' x (by simp)) (hpost x (by simp))
  · cases mid with
    | nil => simp
    | cons x mid => exact absurd (hpre x (by simp)) (hpost' x (by simp))

/-- A part of a chain is replaced by one that fits the same neighbours. -/
theorem isChain_splice {R : A → A → Prop} {before old new behind : List A} {a a' b b' : A}
    (h : (before ++ (old ++ behind)).IsChain R) (hnew : new.IsChain R)
    (hfirst : old.head? = some a ∧ new.head? = some a')
    (hlast : old.getLast? = some b ∧ new.getLast? = some b')
    (hleft : ∀ x, R x a → R x a') (hright : ∀ x, R b x → R b' x) :
    (before ++ (new ++ behind)).IsChain R := by
  obtain ⟨hbefore, hrest, hseam⟩ := List.isChain_append.mp h
  obtain ⟨_, hbehind, hseam'⟩ := List.isChain_append.mp hrest
  have hne : old ≠ [] := by
    rintro rfl
    simp at hfirst
  have hne' : new ≠ [] := by
    rintro rfl
    simp at hfirst
  rw [List.head?_append_of_ne_nil _ hne, hfirst.1] at hseam
  rw [hlast.1] at hseam'
  refine List.isChain_append.mpr ⟨hbefore, List.isChain_append.mpr ⟨hnew, hbehind, ?_⟩, ?_⟩
  · rw [hlast.2]
    intro y hy x hx
    obtain rfl := Option.mem_some.mp hy
    exact hright x (hseam' b rfl x hx)
  · rw [List.head?_append_of_ne_nil _ hne', hfirst.2]
    intro x hx y hy
    obtain rfl := Option.mem_some.mp hy
    exact hleft x (hseam x hx a rfl)

end ListZipper

end WasixLibc
