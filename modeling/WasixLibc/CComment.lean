/-
Block comments of C.

A comment ends at the first terminator after its opener, whatever openers stand
between the two.
-/
import Mathlib.Data.List.Basic

namespace WasixLibc

namespace CComment

/-- What follows the first terminator. -/
def afterComment : List Char → Option (List Char)
  | [] => none
  | '*' :: '/' :: rest => some rest
  | _ :: rest => afterComment rest

/-- One comment and the end of its line. -/
def IsComment : List Char → Prop
  | '/' :: '*' :: inside => afterComment inside = some ['\n']
  | _ => False

theorem afterComment_cons {c : Char} {rest : List Char} (h : c = '*' → rest.head? ≠ some '/') :
    afterComment (c :: rest) = afterComment rest := by
  refine afterComment.eq_3 c rest (fun tail hc hrest => ?_)
  exact h hc (by rw [hrest]; rfl)

/-- A text with no slash is inside to its end. -/
theorem afterComment_append {body : List Char} (hbody : '/' ∉ body) (rest : List Char) :
    afterComment (body ++ ' ' :: '*' :: '/' :: rest) = some rest := by
  induction body with
  | nil =>
      rw [List.nil_append, afterComment_cons (fun h => absurd h (by decide))]
      rfl
  | cons c body ih =>
      obtain ⟨_, hbody⟩ := List.ne_and_not_mem_of_not_mem_cons hbody
      have hhead : (body ++ ' ' :: '*' :: '/' :: rest).head? ≠ some '/' := by
        cases body with
        | nil => exact fun h => absurd (Option.some.inj h) (by decide)
        | cons next body =>
            intro h
            exact hbody (Option.some.inj h ▸ List.mem_cons_self)
      rw [List.cons_append, afterComment_cons (fun _ => hhead)]
      exact ih hbody

/-- The first terminator is not after any other. -/
theorem afterComment_length_le (before after : List Char) :
    ∃ rest, afterComment (before ++ '*' :: '/' :: after) = some rest ∧
      after.length ≤ rest.length := by
  induction before with
  | nil => exact ⟨after, rfl, Nat.le_refl _⟩
  | cons c before ih =>
      by_cases hends : c = '*' ∧ (before ++ '*' :: '/' :: after).head? = some '/'
      · obtain ⟨rfl, hhead⟩ := hends
        cases before with
        | nil => exact absurd (Option.some.inj hhead) (by decide)
        | cons next before =>
            obtain rfl : next = '/' := Option.some.inj hhead
            refine ⟨before ++ '*' :: '/' :: after, rfl, ?_⟩
            rw [List.length_append, List.length_cons, List.length_cons]
            omega
      · rw [List.cons_append, afterComment_cons (fun hc hhead => hends ⟨hc, hhead⟩)]
        exact ih

theorem isComment_of_no_slash {body : List Char} (hbody : '/' ∉ body) :
    IsComment ('/' :: '*' :: body ++ " */\n".toList) := by
  exact afterComment_append hbody ['\n']

/-- A terminator before the last one leaves more than the end of the line. -/
theorem not_isComment_of_terminator {body : List Char} (hbody : ['*', '/'] <:+: body) :
    ¬ IsComment ('/' :: '*' :: body ++ " */\n".toList) := by
  obtain ⟨before, after, rfl⟩ := hbody
  intro hcomment
  obtain ⟨rest, hrest, hlength⟩ := afterComment_length_le before (after ++ " */\n".toList)
  have hinside : afterComment (before ++ '*' :: '/' :: (after ++ " */\n".toList)) =
      some ['\n'] := by
    have hshape : before ++ '*' :: '/' :: (after ++ " */\n".toList) =
        before ++ ['*', '/'] ++ after ++ " */\n".toList := by
      simp only [List.append_assoc, List.cons_append, List.nil_append]
    rw [hshape]
    exact hcomment
  rw [hinside] at hrest
  cases hrest
  have hfour : " */\n".toList.length = 4 := by decide
  rw [List.length_append, hfour, List.length_singleton] at hlength
  omega

end CComment

end WasixLibc
