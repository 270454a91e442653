/-
Stacks linked in both directions, ended by a null link on either side.

A list is read along one of its links.  Pushing an element extends the list at
the front for the one link and at the back for the other.
-/
import Mathlib.Data.List.Nodup
import Mathlib.Data.List.Forall2

namespace WasixLibc

universe u v w

namespace LinkedStack

variable {α : Type u} {step step' : α → Option α} {a b : α} {l : List α}

/-- Each element of `l` leads to the next one, and the last one to nothing. -/
def Leads (step : α → Option α) : List α → Prop
  | [] => True
  | a :: l => step a = l.head? ∧ Leads step l

theorem Leads.congr (h : Leads step l) (hkeep : ∀ b ∈ l, step' b = step b) : Leads step' l := by
  induction l with
  | nil => trivial
  | cons a l ih =>
      refine ⟨(hkeep a List.mem_cons_self).trans h.1, ih h.2 ?_⟩
      intro b hb
      exact hkeep b (List.mem_cons_of_mem a hb)

/-- The last element leads to `a` now, and `a` to nothing. -/
theorem Leads.snoc (h : Leads step l) (hnodup : l.Nodup)
    (hlast : ∀ b, l.getLast? = some b → step' b = some a)
    (hkeep : ∀ b ∈ l, l.getLast? ≠ some b → step' b = step b) (ha : step' a = none) :
    Leads step' (l ++ [a]) := by
  induction l with
  | nil => exact ⟨ha, trivial⟩
  | cons b l ih =>
      cases l with
      | nil => exact ⟨hlast b rfl, ha, trivial⟩
      | cons c l =>
          have hback : (b :: c :: l).getLast? = (c :: l).getLast? := List.getLast?_cons_cons
          rw [hback] at hlast hkeep
          have hb : (c :: l).getLast? ≠ some b := by
            intro hmem
            exact (List.nodup_cons.mp hnodup).1 (List.mem_of_getLast? hmem)
          refine ⟨(hkeep b List.mem_cons_self hb).trans h.1, ?_⟩
          apply ih h.2 (List.nodup_cons.mp hnodup).2 hlast
          intro d hd
          exact hkeep d (List.mem_cons_of_mem b hd)

/-- `l` is linked by `next` from its first element on and by `prev` from its
last. -/
structure Linked (next prev : α → Option α) (l : List α) : Prop where
  nodup : l.Nodup
  forward : Leads next l
  back : Leads prev l.reverse

variable {next prev next' prev' : α → Option α}

theorem linked_nil (next prev : α → Option α) : Linked next prev [] where
  nodup := List.nodup_nil
  forward := trivial
  back := trivial

/-- A new element goes in front. -/
theorem Linked.push (h : Linked next prev l) (ha : a ∉ l) (hnext : next' a = l.head?)
    (hnextKeep : ∀ b ∈ l, next' b = next b) (hprev : prev' a = none)
    (hprevHead : ∀ b, l.head? = some b → prev' b = some a)
    (hprevKeep : ∀ b ∈ l, l.head? ≠ some b → prev' b = prev b) :
    Linked next' prev' (a :: l) where
  nodup := List.nodup_cons.mpr ⟨ha, h.nodup⟩
  forward := ⟨hnext, h.forward.congr hnextKeep⟩
  back := by
    rw [List.reverse_cons]
    apply h.back.snoc (List.nodup_reverse.mpr h.nodup)
    · intro b hb
      rw [List.getLast?_reverse] at hb
      exact hprevHead b hb
    · intro b hb hne
      rw [List.getLast?_reverse] at hne
      exact hprevKeep b (List.mem_reverse.mp hb) hne
    · exact hprev

/-! Loops along a link -/

/-- `for (; a->step; a = a->step) ++n`, with its last element and its count. -/
def seekLast (step : α → Option α) : Nat → α → Nat → Option (α × Nat)
  | 0, _, _ => none
  | fuel + 1, a, n =>
      match step a with
      | none => some (a, n)
      | some b => seekLast step fuel b (n + 1)

/-- `for (; a; a = a->step)` around a body that may leave the loop. -/
def walk {ε : Type v} {β : Type w} (step : α → Option α) (body : α → Except ε β) :
    Nat → Option α → Option (Except ε (List β))
  | _, none => some (.ok [])
  | 0, some _ => none
  | fuel + 1, some a =>
      match body a with
      | .error e => some (.error e)
      | .ok b => (walk step body fuel (step a)).map (fun rest => rest.map (b :: ·))

theorem seekLast_eq {fuel n : Nat} (h : Leads step (a :: l)) (hfuel : l.length < fuel) :
    ∃ last, (a :: l).getLast? = some last ∧
      seekLast step fuel a n = some (last, n + l.length) := by
  induction l generalizing a n fuel with
  | nil =>
      cases fuel with
      | zero => exact absurd hfuel (Nat.not_lt_zero _)
      | succ fuel =>
          refine ⟨a, rfl, ?_⟩
          unfold seekLast
          rw [h.1]
          rfl
  | cons b l ih =>
      cases fuel with
      | zero => exact absurd hfuel (Nat.not_lt_zero _)
      | succ fuel =>
          obtain ⟨last, hlast, hseek⟩ := @ih b fuel (n + 1) h.2 (Nat.lt_of_succ_lt_succ hfuel)
          refine ⟨last, List.getLast?_cons_cons.trans hlast, ?_⟩
          have hb : step a = some b := h.1
          unfold seekLast
          rw [hb]
          dsimp only
          rw [hseek, List.length_cons, Nat.add_assoc, Nat.add_comm 1]

theorem walk_eq {ε : Type v} {β : Type w} {body : α → Except ε β} {bs : List β} {fuel : Nat}
    (h : Leads step l) (hfuel : l.length ≤ fuel)
    (hbody : List.Forall₂ (fun a b => body a = .ok b) l bs) :
    walk step body fuel l.head? = some (.ok bs) := by
  induction hbody generalizing fuel with
  | nil => cases fuel <;> rfl
  | @cons a b l bs hab _ ih =>
      cases fuel with
      | zero => exact absurd hfuel (Nat.not_succ_le_zero _)
      | succ fuel =>
          have htail := ih h.2 (Nat.le_of_succ_le_succ hfuel)
          rw [List.head?_cons]
          unfold walk
          rw [hab]
          dsimp only
          rw [h.1, htail]
          rfl

end LinkedStack

end WasixLibc
