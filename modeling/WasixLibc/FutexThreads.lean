/-
Threads that run one program over shared memory and wait in the queue of a futex.

A step is one access of one thread to the memory, the start of a call, or a wake.
What holds of the threads together is said with sums over the places they are at.
-/
import Mathlib.Algebra.BigOperators.Group.Finset.Piecewise
import Mathlib.Algebra.Order.BigOperators.Group.Finset
import Mathlib.Data.Fintype.BigOperators
import WasixLibc.LabelledRun

namespace WasixLibc

universe u v w

/-- Which of the sleeping threads are woken. -/
inductive Wake where
  | one
  | all
deriving Repr, DecidableEq

/-- A program over memory of type `S` for the threads in `T`; `C` says where a thread is. -/
structure FutexProgram (S : Type u) (C : Type v) (T : Type w) where
  /-- The next access of a thread to the memory. -/
  run : T → S → C → Option (S × C)
  /-- What the caller of the program may do. -/
  call : C → C → Prop
  /-- The thread is in a queue. -/
  asleep : C → Bool
  /-- The second thread is in the queue that the first one is about to wake. -/
  hears : C → C → Bool
  /-- Where a thread that is woken goes on. -/
  roused : C → C
  /-- Where a thread that the host lets go by itself goes on. -/
  stirred : C → C
  /-- Where a thread goes on that the host does not let sleep, as it finds another value.  The
  host may also answer with an error: the code traps then, and nothing follows. -/
  refused : S → C → Option C
  /-- The thread is about to wake others. -/
  wakes : C → Option (Wake × C)

structure FutexState (S : Type u) (C : Type v) (T : Type w) where
  memory : S
  control : T → C

/-- So many accesses of a thread that nothing comes between. -/
def FutexProgram.alone {S : Type u} {C : Type v} {T : Type w} (p : FutexProgram S C T) (t : T) :
    Nat → S → C → Option (S × C)
  | 0, memory, c => some (memory, c)
  | n + 1, memory, c => (p.run t memory c).bind fun next => p.alone t n next.1 next.2

theorem FutexProgram.alone_add {S : Type u} {C : Type v} {T : Type w} {p : FutexProgram S C T}
    {t : T} {n k : Nat} {memory memory' : S} {c c' : C}
    (hfirst : p.alone t n memory c = some (memory', c')) :
    p.alone t (n + k) memory c = p.alone t k memory' c' := by
  induction n generalizing memory c with
  | zero =>
      cases hfirst
      rw [Nat.zero_add]
  | succ n ih =>
      obtain ⟨next, hrun, hrest⟩ := Option.bind_eq_some_iff.mp hfirst
      rw [Nat.add_right_comm, FutexProgram.alone, hrun]
      exact ih hrest

namespace FutexThreads

variable {S : Type u} {C : Type v} {T : Type w}

def rouseAll (p : FutexProgram S C T) (waker : C) (control : T → C) : T → C := fun t =>
  if p.hears waker (control t) then p.roused (control t) else control t

variable [DecidableEq T]

/-- A step of one thread, which is its label. -/
inductive Step (p : FutexProgram S C T) : FutexState S C T → T → FutexState S C T → Prop
  | run {s : FutexState S C T} {t : T} {memory : S} {c : C}
      (hrun : p.run t s.memory (s.control t) = some (memory, c)) :
      Step p s t ⟨memory, Function.update s.control t c⟩
  | call {s : FutexState S C T} {t : T} {c : C} (hcall : p.call (s.control t) c) :
      Step p s t ⟨s.memory, Function.update s.control t c⟩
  /-- The host may say that another thread woke this one, which none did. -/
  | stir {s : FutexState S C T} {t : T} {c : C} (hasleep : p.asleep (s.control t) = true)
      (hc : c = p.stirred (s.control t) ∨ c = p.roused (s.control t)) :
      Step p s t ⟨s.memory, Function.update s.control t c⟩
  | refuse {s : FutexState S C T} {t : T} {c : C}
      (hrefused : p.refused s.memory (s.control t) = some c) :
      Step p s t ⟨s.memory, Function.update s.control t c⟩
  | wakeOne {s : FutexState S C T} {t sleeper : T} {c : C}
      (hwakes : p.wakes (s.control t) = some (.one, c)) (hne : sleeper ≠ t)
      (hasleep : p.hears (s.control t) (s.control sleeper) = true) :
      Step p s t ⟨s.memory, Function.update
        (Function.update s.control sleeper (p.roused (s.control sleeper))) t c⟩
  | wakeNone {s : FutexState S C T} {t : T} {c : C}
      (hwakes : p.wakes (s.control t) = some (.one, c))
      (hnone : ∀ u, p.hears (s.control t) (s.control u) = false) :
      Step p s t ⟨s.memory, Function.update s.control t c⟩
  | wakeAll {s : FutexState S C T} {t : T} {c : C}
      (hwakes : p.wakes (s.control t) = some (.all, c)) :
      Step p s t ⟨s.memory, Function.update (rouseAll p (s.control t) s.control) t c⟩

theorem alone_run {p : FutexProgram S C T} {n : Nat} {s : FutexState S C T} {t : T} {memory : S}
    {c : C} (halone : p.alone t n s.memory (s.control t) = some (memory, c)) :
    Run (Step p) s (List.replicate n t) ⟨memory, Function.update s.control t c⟩ := by
  induction n generalizing s with
  | zero =>
      cases halone
      rw [Function.update_eq_self]
      exact .nil
  | succ n ih =>
      obtain ⟨next, hrun, hrest⟩ := Option.bind_eq_some_iff.mp halone
      have hfirst : Step p s t ⟨next.1, Function.update s.control t next.2⟩ := .run hrun
      have hrest := ih (s := ⟨next.1, Function.update s.control t next.2⟩)
        (by simpa using hrest)
      rw [Function.update_idem] at hrest
      exact (Run.single hfirst).append hrest

/-! Schedules that can be evaluated -/

inductive Move (C : Type v) (T : Type w) where
  /-- So many accesses of one thread. -/
  | alone (t : T) (n : Nat)
  | call (t : T) (c : C)
  | wake (t sleeper : T)

def Move.apply (p : FutexProgram S C T) [∀ c c', Decidable (p.call c c')]
    (s : FutexState S C T) : Move C T → Option (FutexState S C T)
  | .alone t n => (p.alone t n s.memory (s.control t)).map fun next =>
      ⟨next.1, Function.update s.control t next.2⟩
  | .call t c =>
      if p.call (s.control t) c then some ⟨s.memory, Function.update s.control t c⟩ else none
  | .wake t sleeper =>
      match p.wakes (s.control t) with
      | some (.one, c) =>
          if sleeper ≠ t ∧ p.hears (s.control t) (s.control sleeper) = true then
            some ⟨s.memory, Function.update
              (Function.update s.control sleeper (p.roused (s.control sleeper))) t c⟩
          else none
      | some (.all, c) => some ⟨s.memory, Function.update (rouseAll p (s.control t) s.control) t c⟩
      | none => none

def replay (p : FutexProgram S C T) [∀ c c', Decidable (p.call c c')]
    (s : FutexState S C T) (moves : List (Move C T)) : Option (FutexState S C T) :=
  moves.foldlM (Move.apply p) s

theorem Move.apply_run {p : FutexProgram S C T} [∀ c c', Decidable (p.call c c')]
    {s s' : FutexState S C T} {move : Move C T} (happly : move.apply p s = some s') :
    ∃ labels, Run (Step p) s labels s' := by
  cases move with
  | alone t n =>
      obtain ⟨next, halone, rfl⟩ := Option.map_eq_some_iff.mp happly
      exact ⟨_, alone_run halone⟩
  | call t c =>
      simp only [Move.apply] at happly
      split at happly
      · rename_i hcall
        cases happly
        exact ⟨_, .single (.call hcall)⟩
      · cases happly
  | wake t sleeper =>
      simp only [Move.apply] at happly
      split at happly
      · rename_i hwakes
        split at happly
        · rename_i hsleeper
          cases happly
          exact ⟨_, .single (.wakeOne hwakes hsleeper.1 hsleeper.2)⟩
        · cases happly
      · rename_i hwakes
        cases happly
        exact ⟨_, .single (.wakeAll hwakes)⟩
      · cases happly

theorem replay_run {p : FutexProgram S C T} [∀ c c', Decidable (p.call c c')]
    {s s' : FutexState S C T} {moves : List (Move C T)}
    (hreplay : replay p s moves = some s') : ∃ labels, Run (Step p) s labels s' := by
  induction moves generalizing s with
  | nil =>
      cases hreplay
      exact ⟨[], .nil⟩
  | cons move moves ih =>
      unfold replay at hreplay
      rw [List.foldlM_cons] at hreplay
      obtain ⟨mid, happly, hrest⟩ := Option.bind_eq_some_iff.mp hreplay
      obtain ⟨labels, hfirst⟩ := Move.apply_run happly
      obtain ⟨more, hrest⟩ := ih hrest
      exact ⟨labels ++ more, hfirst.append hrest⟩

/-- Three threads, for runs on fixed inputs. -/
inductive Caller where
  | first
  | second
  | third
deriving DecidableEq

instance : Fintype Caller where
  elems := {.first, .second, .third}
  complete t := by cases t <;> decide

/-- The first one is the main thread. -/
def Caller.tid : Caller → Nat
  | .first => 0x3fffffff
  | .second => 2
  | .third => 3

theorem Caller.tid_pos (t : Caller) : 0 < t.tid := by cases t <;> decide

theorem Caller.tid_inj (t u : Caller) (hsame : t.tid = u.tid) : t = u := by
  cases t <;> cases u <;> first | rfl | exact absurd hsame (by decide)

/-! Sums over the threads -/

variable [Fintype T] {weight weight' : C → Nat} {control : T → C} {t : T} {c : C}

def total (weight : C → Nat) (control : T → C) : Nat := ∑ t, weight (control t)

theorem total_update (weight : C → Nat) (control : T → C) (t : T) (c : C) :
    total weight (Function.update control t c) + weight (control t) =
      total weight control + weight c := by
  unfold total
  rw [← Finset.add_sum_erase _ _ (Finset.mem_univ t),
    ← Finset.add_sum_erase Finset.univ (fun u => weight (control u)) (Finset.mem_univ t)]
  have hrest : ∑ u ∈ Finset.univ.erase t, weight (Function.update control t c u) =
      ∑ u ∈ Finset.univ.erase t, weight (control u) := by
    refine Finset.sum_congr rfl fun u hu => ?_
    rw [Function.update_of_ne (Finset.ne_of_mem_erase hu)]
  rw [hrest, Function.update_self]
  omega

omit [DecidableEq T] in
theorem le_total (weight : C → Nat) (control : T → C) (t : T) :
    weight (control t) ≤ total weight control :=
  Finset.single_le_sum (f := fun u => weight (control u)) (fun _ _ => Nat.zero_le _)
    (Finset.mem_univ t)

omit [DecidableEq T] in
theorem total_pos_iff : 0 < total weight control ↔ ∃ t, 0 < weight (control t) := by
  constructor
  · intro hpos
    by_contra hnone
    refine Nat.ne_of_gt hpos (Finset.sum_eq_zero fun t _ => ?_)
    exact Nat.eq_zero_of_not_pos fun ht => hnone ⟨t, ht⟩
  · rintro ⟨t, ht⟩
    exact Nat.lt_of_lt_of_le ht (le_total weight control t)

omit [DecidableEq T] in
theorem total_add (weight weight' : C → Nat) (control : T → C) :
    total (fun c => weight c + weight' c) control =
      total weight control + total weight' control := Finset.sum_add_distrib

omit [DecidableEq T] in
theorem total_le_card (hle : ∀ c, weight c ≤ 1) (control : T → C) :
    total weight control ≤ Fintype.card T := by
  unfold total
  refine Nat.le_trans (Finset.sum_le_sum fun t _ => hle (control t)) ?_
  simp

/-- Two threads count twice. -/
theorem add_le_total (weight : C → Nat) (control : T → C) {t u : T} (hne : t ≠ u) :
    weight (control t) + weight (control u) ≤ total weight control := by
  unfold total
  rw [← Finset.add_sum_erase _ _ (Finset.mem_univ t)]
  refine Nat.add_le_add_left ?_ _
  exact Finset.single_le_sum (f := fun u => weight (control u)) (fun _ _ => Nat.zero_le _)
    (Finset.mem_erase.mpr ⟨Ne.symm hne, Finset.mem_univ u⟩)

omit [DecidableEq T] in
/-- Sums that do not see who sleeps. -/
theorem total_rouseAll {p : FutexProgram S C T} {waker : C}
    (hsame : ∀ c, p.hears waker c = true → weight (p.roused c) = weight c) (control : T → C) :
    total weight (rouseAll p waker control) = total weight control := by
  refine Finset.sum_congr rfl fun t _ => ?_
  unfold rouseAll
  split
  · rename_i hasleep
    exact hsame _ hasleep
  · rfl

omit [DecidableEq T] in
/-- Sums over who sleeps, when all have been woken. -/
theorem total_rouseAll_eq_zero {p : FutexProgram S C T} {waker : C}
    (hawake : ∀ c, p.hears waker c = false → weight c = 0)
    (hroused : ∀ c, p.hears waker c = true → weight (p.roused c) = 0) (control : T → C) :
    total weight (rouseAll p waker control) = 0 := by
  refine Finset.sum_eq_zero fun t _ => ?_
  unfold rouseAll
  split
  · rename_i hasleep
    exact hroused _ hasleep
  · rename_i hasleep
    exact hawake _ (by simpa using hasleep)

end FutexThreads

end WasixLibc
