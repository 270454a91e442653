/-
Which bytes come from a key that was filled by `getentropy`.

The assertion behind the seeding is compiled only without `NDEBUG`; with it, a
generator whose seeding failed counts as initialized and is never seeded again.
-/
import WasixLibc.Arc4random

namespace WasixLibc

namespace Arc4random

/-- The call comes to `arc4random_buf`. -/
def Call.seeds : Call → Bool
  | .buf _ => true
  | .random => true
  | .uniform upperBound => !decide (upperBound < 2)

/-- The call returns random bytes, or a number made of some. -/
def Call.draws : Call → Bool
  | .buf len => decide (0 < len)
  | .random => true
  | .uniform upperBound => !decide (upperBound < 2)

theorem Call.seeds_of_draws {call : Call} (h : call.draws = true) : call.seeds = true := by
  cases call with
  | buf len => rfl
  | random => rfl
  | uniform upperBound => exact h

/-- A state, and whether its key descends from one that a successful
`getentropy` has filled. -/
structure Keyed where
  rng : RngState
  filled : Bool

/-- A call, the answer to its seeding, and whether it was served from a key
that had been filled. -/
structure Label where
  call : Call
  answer : RandomGet
  filled : Bool

structure KeyedStep (ndebug : Bool) (s : Keyed) (l : Label) (t : Keyed) : Prop where
  returns : Returns ndebug l.answer s.rng l.call t.rng
  served : l.filled = t.filled
  fills : t.filled =
    if l.call.seeds && !s.rng.initialized then (getentropy l.answer s.rng.key 32).1 else s.filled

/-! What a call does to the seeding -/

section Call

variable {ndebug : Bool} {answer : RandomGet} {s t : RngState}

theorem getentropy_key (answer : RandomGet) (key : Key) :
    (getentropy answer key 32).1 = decide (answer.error = 0) := rfl

theorem seed_initialized (h : seed ndebug answer s = some t) : t.initialized = true := by
  unfold seed at h
  split at h
  · rename_i hinit
    cases h
    exact hinit
  · dsimp only at h
    split at h
    · cases h
    · cases h
      rfl

/-- Without the assertion, the seeding always gets through. -/
theorem exists_seed (answer : RandomGet) (s : RngState) :
    ∃ seeded, seed true answer s = some seeded := by
  unfold seed
  split
  · exact ⟨s, rfl⟩
  · dsimp only
    rw [Bool.not_true, Bool.and_false, if_neg Bool.false_ne_true]
    exact ⟨_, rfl⟩

theorem seed_of_arc4randomBuf {len : Nat} {out : List Byte}
    (h : arc4randomBuf ndebug answer s len = some (out, t)) :
    t.initialized = true ∧ ∃ seeded, seed ndebug answer s = some seeded := by
  obtain ⟨seeded, hseed, heq⟩ := Option.map_eq_some_iff.mp h
  cases heq
  have hinit : seeded.initialized = true := seed_initialized hseed
  exact ⟨hinit, seeded, hseed⟩

theorem seed_of_arc4random {v : Word} (h : arc4random ndebug answer s = some (v, t)) :
    t.initialized = true ∧ ∃ seeded, seed ndebug answer s = some seeded := by
  obtain ⟨drawn, hdrawn, heq⟩ := Option.map_eq_some_iff.mp h
  cases heq
  exact seed_of_arc4randomBuf hdrawn

theorem seed_of_uniformLoop {min r : Word} {attempts : Nat}
    (h : uniformLoop ndebug answer min attempts s = some (r, t)) :
    t.initialized = true ∧ ∃ seeded, seed ndebug answer s = some seeded := by
  induction attempts generalizing s with
  | zero => cases h
  | succ attempts ih =>
      unfold uniformLoop at h
      split at h
      · cases h
      · rename_i r' s' hcall
        obtain ⟨hinit, hseed⟩ := seed_of_arc4random hcall
        split at h
        · exact ⟨(ih h).1, hseed⟩
        · cases h
          exact ⟨hinit, hseed⟩

/-- A call that comes to `arc4random_buf` leaves an initialized state. -/
theorem Returns.seeded {call : Call} (h : Returns ndebug answer s call t)
    (hseeds : call.seeds = true) :
    t.initialized = true ∧ ∃ seeded, seed ndebug answer s = some seeded := by
  cases h with
  | buf h => exact seed_of_arc4randomBuf h
  | random h => exact seed_of_arc4random h
  | @uniform attempts upperBound r t h =>
      have hbound : ¬ upperBound < 2 := by
        intro hlt
        rw [Call.seeds, decide_eq_true hlt] at hseeds
        cases hseeds
      unfold arc4randomUniform at h
      rw [if_neg hbound] at h
      obtain ⟨drawn, hdrawn, heq⟩ := Option.map_eq_some_iff.mp h
      cases heq
      exact seed_of_uniformLoop hdrawn

/-- Any other call does nothing. -/
theorem Returns.eq_of_not_seeds {call : Call} (h : Returns ndebug answer s call t)
    (hseeds : call.seeds = false) : t = s := by
  cases h with
  | buf h => cases hseeds
  | random h => cases hseeds
  | @uniform attempts upperBound r t h =>
      have hbound : upperBound < 2 := by
        by_contra hge
        rw [Call.seeds, decide_eq_false hge] at hseeds
        cases hseeds
      unfold arc4randomUniform at h
      rw [if_pos hbound] at h
      cases h
      rfl

end Call

/-! Runs -/

/-- The first call that comes to `arc4random_buf`. -/
def firstSeed (labels : List Label) : Option Label := labels.find? (fun l => l.call.seeds)

/-- Nothing was seeded so far, or all calls since the seeding were served from
the key of that time. -/
inductive Seeding (labels : List Label) (t : Keyed) : Prop
  | before : t.rng.initialized = false → (∀ l ∈ labels, l.call.seeds = false) → Seeding labels t
  | after (first : Label) : t.rng.initialized = true → firstSeed labels = some first →
      t.filled = decide (first.answer.error = 0) →
      (∀ l ∈ labels, l.call.seeds = true → l.filled = t.filled) → Seeding labels t

theorem forall_mem_snoc {P : Label → Prop} {labels : List Label} {l : Label}
    (h : ∀ l' ∈ labels, P l') (hl : P l) : ∀ l' ∈ labels ++ [l], P l' := by
  intro l' hmem
  rcases List.mem_append.mp hmem with hmem | hmem
  · exact h l' hmem
  · rw [List.mem_singleton.mp hmem]
    exact hl

theorem step_seeding {ndebug : Bool} {labels : List Label} {s t : Keyed} {l : Label}
    (h : Seeding labels s) (hstep : KeyedStep ndebug s l t) : Seeding (labels ++ [l]) t := by
  obtain ⟨hreturns, hserved, hfills⟩ := hstep
  cases hseeds : l.call.seeds with
  | false =>
      have hrng := hreturns.eq_of_not_seeds hseeds
      rw [hseeds, Bool.false_and, if_neg Bool.false_ne_true] at hfills
      cases h with
      | before hinit hnone =>
          exact .before (hrng ▸ hinit) (forall_mem_snoc hnone hseeds)
      | after first hinit hfirst hfilled hall =>
          refine .after first (hrng ▸ hinit) ?_ (hfills.trans hfilled) ?_
          · unfold firstSeed at *
            rw [List.find?_append, hfirst, Option.some_or]
          · rw [hfills]
            exact forall_mem_snoc hall (fun hseeds' => absurd hseeds' (by rw [hseeds]; decide))
  | true =>
      have hinit' := (hreturns.seeded hseeds).1
      cases h with
      | before hinit hnone =>
          rw [hseeds, hinit, Bool.not_false, Bool.and_true, if_pos rfl, getentropy_key] at hfills
          refine .after l hinit' ?_ hfills ?_
          · have hfind : labels.find? (fun l => l.call.seeds) = none :=
              List.find?_eq_none.mpr fun l' hmem => by
                rw [hnone l' hmem]
                exact Bool.false_ne_true
            unfold firstSeed
            rw [List.find?_append, hfind, Option.none_or, List.find?_singleton, if_pos hseeds]
          · exact forall_mem_snoc (fun l' hmem hseeds' => absurd hseeds'
              (by rw [hnone l' hmem]; decide)) (fun _ => hserved)
      | after first hinit hfirst hfilled hall =>
          rw [hinit, Bool.not_true, Bool.and_false, if_neg Bool.false_ne_true] at hfills
          refine .after first hinit' ?_ (hfills.trans hfilled) ?_
          · unfold firstSeed at *
            rw [List.find?_append, hfirst, Option.some_or]
          · refine forall_mem_snoc ?_ (fun _ => hserved)
            rw [hfills]
            exact hall

section Run

variable {ndebug : Bool} {labels : List Label} {t : Keyed}

/-- No key is filled at the start. -/
def unkeyed : Keyed := ⟨initial, false⟩

theorem run_seeding (hrun : Run (KeyedStep ndebug) unkeyed labels t) : Seeding labels t :=
  hrun.preserves_trace (fun h hstep => step_seeding h hstep)
    (.before rfl (fun _ hmem => absurd hmem List.not_mem_nil))

/-- Every call that returned random bytes was served from a filled key. -/
def NoUnseededOutput (labels : List Label) : Prop :=
  ∀ l ∈ labels, l.call.draws = true → l.filled = true

/-- The one seeding works, or nothing is drawn at all. -/
def SeedingWorks (labels : List Label) : Prop :=
  (∃ first, firstSeed labels = some first ∧ first.answer.error = 0) ∨
    ∀ l ∈ labels, l.call.draws = false

/-- With `NDEBUG`, only the first seeding counts. -/
theorem run_noUnseededOutput_iff (hrun : Run (KeyedStep true) unkeyed labels t) :
    NoUnseededOutput labels ↔ SeedingWorks labels := by
  constructor
  · intro hclean
    by_cases hdrawn : ∃ l ∈ labels, l.call.draws = true
    · obtain ⟨l, hmem, hdraws⟩ := hdrawn
      have hseeds := Call.seeds_of_draws hdraws
      cases run_seeding hrun with
      | before _ hnone => exact absurd hseeds (by rw [hnone l hmem]; decide)
      | after first _ hfirst hfilled hall =>
          have hworked : decide (first.answer.error = 0) = true := by
            rw [← hfilled, ← hall l hmem hseeds]
            exact hclean l hmem hdraws
          exact Or.inl ⟨first, hfirst, of_decide_eq_true hworked⟩
    · refine Or.inr (fun l hmem => ?_)
      rw [← Bool.not_eq_true]
      exact fun hdraws => hdrawn ⟨l, hmem, hdraws⟩
  · rintro (⟨first, hfirst, hworked⟩ | hnothing) l hmem hdraws
    · cases run_seeding hrun with
      | before _ hnone =>
          exact absurd (Call.seeds_of_draws hdraws) (by rw [hnone l hmem]; decide)
      | after first' _ hfirst' hfilled hall =>
          rw [hfirst, Option.some.injEq] at hfirst'
          rw [hall l hmem (Call.seeds_of_draws hdraws), hfilled, ← hfirst']
          exact decide_eq_true hworked
    · exact absurd hdraws (by rw [hnothing l hmem]; decide)

end Run

namespace SeedWitness

/-- A request for one byte. -/
def byte (answer : RandomGet) : Label where
  call := .buf 1
  answer := answer
  filled := answer.error = 0

theorem byte_step (answer : RandomGet) :
    ∃ t, KeyedStep true unkeyed (byte answer) t := by
  obtain ⟨out, s, hbuf⟩ : ∃ out s, arc4randomBuf true answer initial 1 = some (out, s) := by
    obtain ⟨seeded, hseeded⟩ := exists_seed answer initial
    exact ⟨_, _, arc4randomBuf_eq_draws 1 initial_sound hseeded⟩
  exact ⟨⟨s, answer.error = 0⟩, .buf hbuf, rfl, rfl⟩

/-- An answer without entropy. -/
def failed : RandomGet where
  error := 52
  buffer := Vector.replicate 32 0

def worked : RandomGet where
  error := 0
  buffer := Vector.replicate 32 9

theorem worked_clean : ∃ t, Run (KeyedStep true) unkeyed [byte worked] t ∧
    NoUnseededOutput [byte worked] := by
  obtain ⟨t, hstep⟩ := byte_step worked
  exact ⟨t, .single hstep, (run_noUnseededOutput_iff (.single hstep)).mpr
    (Or.inl ⟨byte worked, rfl, rfl⟩)⟩

/-- A byte is returned although the seeding failed. -/
theorem failed_returns : ¬ ∀ (labels : List Label) (t : Keyed),
    Run (KeyedStep true) unkeyed labels t → NoUnseededOutput labels := by
  intro h
  obtain ⟨t, hstep⟩ := byte_step failed
  have hfilled := h [byte failed] t (.single hstep) (byte failed) List.mem_cons_self rfl
  exact absurd hfilled (by decide)

end SeedWitness

end Arc4random

end WasixLibc
