/-
Finite runs of a labelled step relation.

A run lists the labels of its steps in order.  What every step keeps holds at
the end of every run; a property of the labels so far and the state is kept in
the same way.
-/
import Mathlib.Data.List.Induction

namespace WasixLibc

universe u v

/-- `labels` are the labels of consecutive steps from one state to another. -/
inductive Run {S : Type u} {L : Type v} (step : S → L → S → Prop) (start : S) :
    List L → S → Prop
  | nil : Run step start [] start
  | snoc {labels : List L} {s t : S} {l : L} :
      Run step start labels s → step s l t → Run step start (labels ++ [l]) t

namespace Run

variable {S : Type u} {L : Type v} {step step' : S → L → S → Prop}
variable {start mid final : S} {labels more : List L}

theorem append (hrun : Run step start labels mid) (hmore : Run step mid more final) :
    Run step start (labels ++ more) final := by
  induction hmore with
  | nil => simpa using hrun
  | snoc _ hstep ih =>
      rw [← List.append_assoc]
      exact .snoc ih hstep

theorem single {l : L} (hstep : step start l final) : Run step start [l] final := by
  simpa using Run.nil.snoc hstep

/-- The run lemma of an invariant that may mention the labels so far. -/
@[elab_as_elim] theorem preserves_trace {Inv : List L → S → Prop}
    (hstep : ∀ {labels s l t}, Inv labels s → step s l t → Inv (labels ++ [l]) t)
    (hrun : Run step start labels final) (hstart : Inv [] start) : Inv labels final := by
  induction hrun with
  | nil => exact hstart
  | snoc _ hlast ih => exact hstep ih hlast

/-- The run lemma of an invariant. -/
theorem preserves {Inv : S → Prop} (hstep : ∀ {s l t}, Inv s → step s l t → Inv t)
    (hrun : Run step start labels final) (hstart : Inv start) : Inv final :=
  hrun.preserves_trace (fun h hlast => hstep h hlast) hstart

theorem mono (hstep : ∀ {s l t}, step s l t → step' s l t)
    (hrun : Run step start labels final) : Run step' start labels final := by
  induction hrun with
  | nil => exact .nil
  | snoc _ hlast ih => exact .snoc ih (hstep hlast)

theorem split (hrun : Run step start (labels ++ more) final) :
    ∃ mid, Run step start labels mid ∧ Run step mid more final := by
  induction more using List.reverseRecOn generalizing final with
  | nil => exact ⟨final, by simpa using hrun, .nil⟩
  | append_singleton more l ih =>
      rw [← List.append_assoc] at hrun
      generalize hall : (labels ++ more) ++ [l] = all at hrun
      cases hrun with
      | nil => simp at hall
      | snoc hinit hlast =>
          obtain ⟨rfl, hl⟩ := List.append_inj' hall rfl
          obtain ⟨mid, hfirst, hrest⟩ := ih hinit
          obtain rfl : l = _ := by simpa using hl
          exact ⟨mid, hfirst, .snoc hrest hlast⟩

theorem eq_of_nil (hrun : Run step start [] final) : start = final := by
  generalize hall : ([] : List L) = all at hrun
  cases hrun with
  | nil => rfl
  | snoc => simp at hall

theorem of_single {l : L} (hrun : Run step start [l] final) : step start l final := by
  generalize hall : [l] = all at hrun
  cases hrun with
  | nil => cases hall
  | @snoc labels _ _ _ hinit hlast =>
      have hlabels : [] ++ [l] = labels ++ [_] := hall
      obtain ⟨rfl, hl⟩ := List.append_inj' hlabels rfl
      obtain rfl : l = _ := by simpa using hl
      rwa [hinit.eq_of_nil]

/-- A run stopped before one of its labels. -/
theorem split_cons {l : L} (hrun : Run step start (labels ++ l :: more) final) :
    ∃ s t, Run step start labels s ∧ step s l t ∧ Run step t more final := by
  obtain ⟨s, hfirst, hrest⟩ := hrun.split
  have hcut : Run step s ([l] ++ more) final := hrest
  obtain ⟨t, hstep, hlater⟩ := hcut.split
  exact ⟨s, t, hfirst, hstep.of_single, hlater⟩

end Run

end WasixLibc
