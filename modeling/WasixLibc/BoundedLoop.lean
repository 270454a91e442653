/-
Loops that go round until a round ends them.

The body takes a state to another state or to a result.  A bound on the rounds
makes the loop a function; a loop returns if some bound is enough.
-/
import Mathlib.Logic.Basic

namespace WasixLibc

universe u v

/-- How a round of a loop ends. -/
inductive Round (S : Type u) (R : Type v) where
  | again (s : S)
  | done (result : R)

namespace Round

variable {S : Type u} {R : Type v}

/-- The loop, with a bound on its rounds. -/
def loop (body : S → Round S R) : Nat → S → Option R
  | 0, _ => none
  | n + 1, s =>
      match body s with
      | .again s => loop body n s
      | .done result => some result

/-- The loop ends with a result. -/
def Returns (body : S → Round S R) (s : S) (result : R) : Prop :=
  ∃ n, loop body n s = some result

variable {body : S → Round S R} {s t : S} {result result' : R}

theorem returns_again_iff (hbody : body s = .again t) :
    Returns body s result ↔ Returns body t result := by
  constructor
  · rintro ⟨n, hloop⟩
    cases n with
    | zero => cases hloop
    | succ n =>
        rw [loop, hbody] at hloop
        exact ⟨n, hloop⟩
  · rintro ⟨n, hloop⟩
    refine ⟨n + 1, ?_⟩
    rw [loop, hbody]
    exact hloop

theorem returns_done_iff (hbody : body s = .done result) :
    Returns body s result' ↔ result' = result := by
  constructor
  · rintro ⟨n, hloop⟩
    cases n with
    | zero => cases hloop
    | succ n =>
        rw [loop, hbody] at hloop
        exact (Option.some.inj hloop).symm
  · rintro rfl
    refine ⟨1, ?_⟩
    rw [loop, hbody]

theorem returns_done (hbody : body s = .done result) : Returns body s result :=
  (returns_done_iff hbody).mpr rfl

/-- Induction on the rounds of a loop that returns. -/
@[elab_as_elim] theorem Returns.induction {motive : ∀ s, Returns body s result → Prop}
    (done : ∀ {s} (hbody : body s = .done result), motive s (returns_done hbody))
    (again : ∀ {s t} (hbody : body s = .again t) (h : Returns body t result), motive t h →
      motive s ((returns_again_iff hbody).mpr h))
    {s : S} (h : Returns body s result) : motive s h := by
  obtain ⟨n, hloop⟩ := h
  induction n generalizing s with
  | zero => cases hloop
  | succ n ih =>
      cases hbody : body s with
      | done result' =>
          have hresult := hloop
          rw [loop, hbody] at hresult
          cases hresult
          exact done hbody
      | again t =>
          have hresult := hloop
          rw [loop, hbody] at hresult
          exact again hbody ⟨n, hresult⟩ (ih hresult)

theorem Returns.unique (h : Returns body s result) (h' : Returns body s result') :
    result' = result := by
  induction h using Returns.induction with
  | done hbody => exact (returns_done_iff hbody).mp h'
  | again hbody _ ih => exact ih ((returns_again_iff hbody).mp h')

/-- The rule of a loop whose rounds keep an invariant and lower a measure. -/
theorem loop_of_measure {inv : S → Prop} {post : S → R → Prop} (measure : S → Nat)
    (hround : ∀ s, inv s → (∃ result, body s = .done result ∧ post s result) ∨
      ∃ t, body s = .again t ∧ inv t ∧ measure t < measure s ∧
        ∀ result, post t result → post s result)
    (hinv : inv s) {n : Nat} (hn : measure s < n) :
    ∃ result, loop body n s = some result ∧ post s result := by
  induction n generalizing s with
  | zero => exact absurd hn (Nat.not_lt_zero _)
  | succ n ih =>
      rcases hround s hinv with ⟨result, hbody, hpost⟩ | ⟨t, hbody, ht, hlt, hback⟩
      · refine ⟨result, ?_, hpost⟩
        rw [loop, hbody]
      · obtain ⟨result, hloop, hpost⟩ := ih ht (by omega)
        refine ⟨result, ?_, hback result hpost⟩
        rw [loop, hbody]
        exact hloop

end Round

end WasixLibc
