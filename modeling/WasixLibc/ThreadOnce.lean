/-
The run of an initialisation that many threads ask for.

The word is 0 before the initialisation and after one that was cancelled, 1 while a
thread runs it, 3 when others may wait meanwhile, and 2 from its end on.
-/
import WasixLibc.FutexWait

namespace WasixLibc

namespace Sync

open FutexThreads

/-- A `pthread_once_t` and what `init` has done. -/
structure OnceControl where
  word : Int
  /-- How often `init` has run to its end. -/
  inits : Nat
deriving Repr, DecidableEq

/-- Where a thread is in `__pthread_once` and `__pthread_once_full`. -/
inductive OncePoint where
  | outside
  | check
  | enter
  | init
  | finish
  | undo
  | mark
  | wait (point : WaitPoint)
  /-- `returns` tells the end of `init` from its cancellation. -/
  | wake (returns : Bool)
  | returned
  | cancelled
deriving Repr, DecidableEq

/-- One access to the word, or the whole of `init`. -/
def OncePoint.run (m : OnceControl) : OncePoint → Option (OnceControl × OncePoint)
  | .check => some (m, if m.word = 2 then .returned else .enter)
  | .enter => some <|
      if m.word = 0 then ({ m with word := 1 }, .init)
      else if m.word = 1 then (m, .mark)
      else if m.word = 3 then (m, .wait (.looking SPINS))
      else if m.word = 2 then (m, .returned)
      else (m, .enter)
  | .init => some ({ m with inits := m.inits + 1 }, .finish)
  | .finish => some ({ m with word := 2 }, if m.word = 3 then .wake true else .returned)
  | .undo => some ({ m with word := 0 }, if m.word = 3 then .wake false else .cancelled)
  | .mark => some (if m.word = 1 then { m with word := 3 } else m, .wait (.looking SPINS))
  | .wait point => (point.turn (m.word = 3) .wait .enter).map fun c => (m, c)
  | .outside | .wake _ | .returned | .cancelled => none

def OncePoint.asleep : OncePoint → Bool
  | .wait .asleep => true
  | _ => false

def OncePoint.roused : OncePoint → OncePoint
  | .wait .asleep => .wait (.looking 0)
  | c => c

def OncePoint.refused (m : OnceControl) : OncePoint → Option OncePoint
  | .wait point => point.refused (m.word = 3) .wait
  | _ => none

/-- A call, which a thread may make again, and the cancellation of `init`. -/
def OncePoint.Calls (c c' : OncePoint) : Prop :=
  (c = .outside ∨ c = .returned ∨ c = .cancelled) ∧ c' = .check ∨ c = .init ∧ c' = .undo

instance OncePoint.decidableCalls (c c' : OncePoint) : Decidable (c.Calls c') :=
  inferInstanceAs (Decidable (_ ∧ _ ∨ _ ∧ _))

/-- `__pthread_once` -/
def pthreadOnce {T : Type} : FutexProgram OnceControl OncePoint T where
  run _ := OncePoint.run
  call := OncePoint.Calls
  asleep := OncePoint.asleep
  hears _ := OncePoint.asleep
  roused := OncePoint.roused
  stirred := OncePoint.roused
  refused := OncePoint.refused
  wakes
    | .wake returns => some (.all, if returns then .returned else .cancelled)
    | _ => none

instance {T : Type} (c c' : OncePoint) :
    Decidable ((pthreadOnce : FutexProgram OnceControl OncePoint T).call c c') :=
  inferInstanceAs (Decidable (c.Calls c'))

/-- The thread is the one that runs `init`, or that has to say that it has. -/
@[simp] def OncePoint.running : OncePoint → Nat
  | .init | .finish | .undo => 1
  | _ => 0

@[simp] def OncePoint.finishing : OncePoint → Nat
  | .finish => 1
  | _ => 0

@[simp] def OncePoint.sleeping : OncePoint → Nat
  | .wait .asleep => 1
  | _ => 0

@[simp] def OncePoint.waking : OncePoint → Nat
  | .wake _ => 1
  | _ => 0

/-- The call has found, or has made, the initialisation done. -/
@[simp] def OncePoint.Ended : OncePoint → Prop
  | .wake true | .returned => True
  | _ => False

variable {T : Type} [Fintype T]

/-- The invariant of a `pthread_once_t`. -/
structure OnceInv (s : FutexState OnceControl OncePoint T) : Prop where
  phase :
    s.memory.word = 0 ∧ total OncePoint.running s.control = 0 ∧ s.memory.inits = 0 ∨
    (s.memory.word = 1 ∨ s.memory.word = 3) ∧ total OncePoint.running s.control = 1 ∧
      s.memory.inits = total OncePoint.finishing s.control ∨
    s.memory.word = 2 ∧ total OncePoint.running s.control = 0 ∧ s.memory.inits = 1
  ended : ∀ t, (s.control t).Ended → s.memory.word = 2
  attended : 0 < total OncePoint.sleeping s.control →
    s.memory.word = 3 ∨ 0 < total OncePoint.waking s.control

/-- `PTHREAD_ONCE_INIT` -/
def onceInit : FutexState OnceControl OncePoint T := ⟨⟨0, 0⟩, fun _ => .outside⟩

theorem onceInit_inv : OnceInv (onceInit : FutexState OnceControl OncePoint T) := by
  refine ⟨Or.inl ⟨rfl, ?_, rfl⟩, fun _ h => h.elim, ?_⟩
  · simp [onceInit, total]
  · simp [onceInit, total]

theorem finishing_le_running (control : T → OncePoint) :
    total OncePoint.finishing control ≤ total OncePoint.running control := by
  refine Finset.sum_le_sum fun t _ => ?_
  cases control t <;> simp

variable [DecidableEq T]

/-- A thread moves, and the sums and the word still agree. -/
theorem OnceInv.move {s : FutexState OnceControl OncePoint T} (h : OnceInv s) {t : T}
    {m : OnceControl} {c : OncePoint} (hended : c.Ended → m.word = 2)
    (hkept : s.memory.word = 2 → m.word = 2)
    (hsums : ∀ running finishing sleeping waking : Nat,
      running + (s.control t).running = total OncePoint.running s.control + c.running →
      finishing + (s.control t).finishing = total OncePoint.finishing s.control + c.finishing →
      sleeping + (s.control t).sleeping = total OncePoint.sleeping s.control + c.sleeping →
      waking + (s.control t).waking = total OncePoint.waking s.control + c.waking →
      finishing ≤ running →
      (m.word = 0 ∧ running = 0 ∧ m.inits = 0 ∨
        (m.word = 1 ∨ m.word = 3) ∧ running = 1 ∧ m.inits = finishing ∨
        m.word = 2 ∧ running = 0 ∧ m.inits = 1) ∧
      (0 < sleeping → m.word = 3 ∨ 0 < waking)) :
    OnceInv ⟨m, Function.update s.control t c⟩ := by
  obtain ⟨hphase, hattended⟩ := hsums _ _ _ _
    (total_update OncePoint.running s.control t c)
    (total_update OncePoint.finishing s.control t c)
    (total_update OncePoint.sleeping s.control t c) (total_update OncePoint.waking s.control t c)
    (finishing_le_running _)
  refine ⟨hphase, ?_, hattended⟩
  exact (Function.forall_update_iff s.control fun _ c => c.Ended → m.word = 2).mpr
    ⟨hended, fun u _ hu => hkept (h.ended u hu)⟩

/-- A thread moves that has nothing to do with `init` before and after. -/
theorem OnceInv.pass {s : FutexState OnceControl OncePoint T} (h : OnceInv s) {t : T}
    {c : OncePoint} (hended : c.Ended → s.memory.word = 2)
    (hrunning : c.running = (s.control t).running)
    (hfinishing : c.finishing = (s.control t).finishing)
    (hsums : ∀ sleeping waking : Nat,
      sleeping + (s.control t).sleeping = total OncePoint.sleeping s.control + c.sleeping →
      waking + (s.control t).waking = total OncePoint.waking s.control + c.waking →
      0 < sleeping → s.memory.word = 3 ∨ 0 < waking) :
    OnceInv ⟨s.memory, Function.update s.control t c⟩ := by
  refine h.move hended id
    fun running finishing sleeping waking hrunning' hfinishing' hsleeping hwaking hle => ?_
  rw [hrunning, Nat.add_right_cancel_iff] at hrunning'
  rw [hfinishing, Nat.add_right_cancel_iff] at hfinishing'
  rw [hrunning', hfinishing']
  exact ⟨h.phase, hsums sleeping waking hsleeping hwaking⟩

omit [Fintype T] [DecidableEq T] in
theorem OncePoint.wait_run {m m' : OnceControl} {point : WaitPoint} {c : OncePoint}
    (hrun : (OncePoint.wait point).run m = some (m', c)) :
    m' = m ∧ point ≠ .asleep ∧
      (c = .enter ∨ ∃ next, c = .wait next ∧ (next = .asleep → m.word = 3)) := by
  obtain ⟨c', hturn, hc⟩ := Option.map_eq_some_iff.mp hrun
  cases hc
  obtain ⟨hawake, hcases⟩ := WaitPoint.turn_cases hturn
  refine ⟨rfl, hawake, hcases.imp id ?_⟩
  rintro ⟨next, rfl, hsame⟩
  exact ⟨next, rfl, fun hasleep => of_decide_eq_true (hsame (Or.inl hasleep))⟩

theorem OnceInv.run {s : FutexState OnceControl OncePoint T} (h : OnceInv s) {t : T}
    {m : OnceControl} {c : OncePoint} (hrun : (s.control t).run s.memory = some (m, c)) :
    OnceInv ⟨m, Function.update s.control t c⟩ := by
  have hphase := h.phase
  have hattended := h.attended
  have hrunning := le_total OncePoint.running s.control t
  have hmove := @OnceInv.move T _ _ s h t m c
  have hpass := @OnceInv.pass T _ _ s h t c
  generalize s.control t = point at hrun hrunning hmove hpass
  cases point with
  | check =>
      simp only [OncePoint.run] at hrun
      split at hrun
      · cases hrun
        refine hpass (fun _ => by assumption) rfl rfl fun sleeping waking hsleeping hwaking => ?_
        simp at hsleeping hwaking
        omega
      · cases hrun
        refine hpass (fun hended => hended.elim) rfl rfl fun sleeping waking hsleeping hwaking => ?_
        simp at hsleeping hwaking
        omega
  | enter =>
      simp only [OncePoint.run] at hrun
      split_ifs at hrun with hzero hone hthree htwo
      · cases hrun
        refine hmove (fun hended => hended.elim) (fun htwo => by omega) ?_
        intro running finishing sleeping waking hrunning hfinishing hsleeping hwaking hle
        obtain ⟨-, hnone, hinits⟩ : _ ∧ _ := hphase.resolve_right (by omega)
        have hfinishers := finishing_le_running s.control
        simp at hrunning hfinishing hsleeping hwaking
        refine ⟨Or.inr (Or.inl ⟨Or.inl rfl, by omega, ?_⟩), by omega⟩
        dsimp only
        omega
      · cases hrun
        refine hpass (fun hended => hended.elim) rfl rfl fun sleeping waking hsleeping hwaking => ?_
        simp at hsleeping hwaking
        omega
      · cases hrun
        refine hpass (fun hended => hended.elim) rfl rfl fun sleeping waking hsleeping hwaking => ?_
        simp at hsleeping hwaking
        omega
      · cases hrun
        refine hpass (fun _ => htwo) rfl rfl fun sleeping waking hsleeping hwaking => ?_
        simp at hsleeping hwaking
        omega
      · omega
  | init =>
      cases hrun
      refine hmove (fun hended => hended.elim) id ?_
      intro running finishing sleeping waking hrunning' hfinishing hsleeping hwaking hle
      simp at hrunning' hfinishing hsleeping hwaking hrunning
      obtain ⟨hword, hone, hinits⟩ := (hphase.resolve_left (by omega)).resolve_right (by omega)
      refine ⟨Or.inr (Or.inl ⟨hword, by omega, ?_⟩), ?_⟩
      · dsimp only
        omega
      · dsimp only
        omega
  | finish =>
      simp only [OncePoint.run] at hrun
      cases hrun
      refine hmove (fun _ => rfl) (fun _ => rfl) ?_
      intro running finishing sleeping waking hrunning' hfinishing hsleeping hwaking hle
      simp at hrunning
      have hfinishers := finishing_le_running s.control
      obtain ⟨hword, hone, hinits⟩ := (hphase.resolve_left (by omega)).resolve_right (by omega)
      by_cases hthree : s.memory.word = 3
      · simp [hthree] at hrunning' hfinishing hsleeping hwaking
        exact ⟨Or.inr (Or.inr ⟨rfl, by omega, by dsimp only; omega⟩), by omega⟩
      · simp [hthree] at hrunning' hfinishing hsleeping hwaking
        exact ⟨Or.inr (Or.inr ⟨rfl, by omega, by dsimp only; omega⟩), by omega⟩
  | undo =>
      simp only [OncePoint.run] at hrun
      cases hrun
      simp at hrunning
      obtain ⟨hword, hone, hinits⟩ := (hphase.resolve_left (by omega)).resolve_right (by omega)
      refine hmove (fun hended => ?_) (fun htwo => by omega) ?_
      · by_cases hthree : s.memory.word = 3
        · simp [hthree] at hended
        · simp [hthree] at hended
      · intro running finishing sleeping waking hrunning hfinishing hsleeping hwaking hle
        by_cases hthree : s.memory.word = 3
        · simp [hthree] at hrunning hfinishing hsleeping hwaking
          exact ⟨Or.inl ⟨rfl, by omega, by dsimp only; omega⟩, by omega⟩
        · simp [hthree] at hrunning hfinishing hsleeping hwaking
          exact ⟨Or.inl ⟨rfl, by omega, by dsimp only; omega⟩, by omega⟩
  | mark =>
      simp only [OncePoint.run] at hrun
      cases hrun
      by_cases hone : s.memory.word = 1
      · refine hmove (fun hended => hended.elim) (fun htwo => by omega) ?_
        intro running finishing sleeping waking hrunning hfinishing hsleeping hwaking hle
        obtain ⟨-, hsingle, hinits⟩ := (hphase.resolve_left (by omega)).resolve_right (by omega)
        simp [hone] at hrunning hfinishing hsleeping hwaking ⊢
        omega
      · rw [if_neg hone]
        refine hpass (fun hended => hended.elim) rfl rfl fun sleeping waking hsleeping hwaking => ?_
        simp at hsleeping hwaking
        omega
  | wait point =>
      obtain ⟨rfl, hawake, rfl | ⟨next, rfl, hasleep⟩⟩ := OncePoint.wait_run hrun
      · refine hpass (fun hended => hended.elim) rfl rfl fun sleeping waking hsleeping hwaking => ?_
        simp [hawake] at hsleeping hwaking
        omega
      · refine hpass (fun hended => hended.elim) rfl rfl
          fun sleeping waking hsleeping hwaking hpos => ?_
        by_cases hnext : next = .asleep
        · exact Or.inl (hasleep hnext)
        · simp [hawake, hnext] at hsleeping hwaking
          omega
  | _ => cases hrun

/-- A thread that the host lets go looks again. -/
theorem OnceInv.stir {s : FutexState OnceControl OncePoint T} (h : OnceInv s) {t : T}
    (hasleep : (s.control t).asleep = true) :
    OnceInv ⟨s.memory, Function.update s.control t (s.control t).roused⟩ := by
  have hattended := h.attended
  have hpass := @OnceInv.pass T _ _ s h t (s.control t).roused
  generalize s.control t = point at hasleep hpass
  cases point with
  | wait point =>
      cases point with
      | asleep =>
          refine hpass (fun hended => hended.elim) rfl rfl
            fun sleeping waking hsleeping hwaking => ?_
          simp [OncePoint.roused] at hsleeping hwaking
          omega
      | _ => cases hasleep
  | _ => cases hasleep

theorem OnceInv.refuse {s : FutexState OnceControl OncePoint T} (h : OnceInv s) {t : T}
    {c : OncePoint} (hrefused : (s.control t).refused s.memory = some c) :
    OnceInv ⟨s.memory, Function.update s.control t c⟩ := by
  have hattended := h.attended
  have hpass := @OnceInv.pass T _ _ s h t c
  generalize s.control t = point at hrefused hpass
  cases point with
  | wait point =>
      obtain ⟨rfl, -, rfl⟩ := WaitPoint.refused_cases hrefused
      refine hpass (fun hended => hended.elim) rfl rfl fun sleeping waking hsleeping hwaking => ?_
      simp at hsleeping hwaking
      omega
  | _ => cases hrefused

omit [Fintype T] [DecidableEq T] in
theorem pthreadOnce_wakes {c c' : OncePoint} {wake : Wake}
    (hwakes : (pthreadOnce : FutexProgram OnceControl OncePoint T).wakes c = some (wake, c')) :
    ∃ returns, c = .wake returns ∧ wake = .all ∧
      c' = if returns then .returned else .cancelled := by
  cases c with
  | wake returns =>
      cases hwakes
      exact ⟨returns, rfl, rfl, rfl⟩
  | _ => cases hwakes

omit [DecidableEq T] in
/-- All that sleep are woken, and nothing else changes. -/
theorem OnceInv.rouseAll {s : FutexState OnceControl OncePoint T} (h : OnceInv s)
    (waker : OncePoint) :
    OnceInv ⟨s.memory, rouseAll pthreadOnce waker s.control⟩ ∧
      total OncePoint.sleeping (FutexThreads.rouseAll pthreadOnce waker s.control) = 0 := by
  have hroused : ∀ c, OncePoint.asleep c = true → OncePoint.roused c = .wait (.looking 0) ∧
      c = .wait .asleep := by
    intro c hc
    cases c with
    | wait point =>
        cases point with
        | asleep => exact ⟨rfl, rfl⟩
        | _ => cases hc
    | _ => cases hc
  have hsame : ∀ weight : OncePoint → Nat,
      weight (.wait (.looking 0)) = weight (.wait .asleep) →
      total weight (FutexThreads.rouseAll pthreadOnce waker s.control) =
        total weight s.control := by
    intro weight hweight
    refine total_rouseAll (fun c hc => ?_) _
    obtain ⟨-, rfl⟩ := hroused c hc
    exact hweight
  have hnone : total OncePoint.sleeping
      (FutexThreads.rouseAll pthreadOnce waker s.control) = 0 := by
    refine total_rouseAll_eq_zero (fun c hc => ?_) (fun c hc => ?_) _
    · cases c with
      | wait point =>
          cases point with
          | asleep => cases hc
          | _ => rfl
      | _ => rfl
    · obtain ⟨-, rfl⟩ := hroused c hc
      rfl
  refine ⟨⟨?_, ?_, ?_⟩, hnone⟩
  · rw [hsame OncePoint.running rfl, hsame OncePoint.finishing rfl]
    exact h.phase
  · intro t hended
    dsimp only [FutexThreads.rouseAll] at hended
    split at hended
    · rename_i hasleep
      have hend : (OncePoint.roused (s.control t)).Ended := hended
      rw [(hroused _ hasleep).1] at hend
      exact hend.elim
    · exact h.ended t hended
  · rw [hnone]
    exact fun hpos => absurd hpos (Nat.lt_irrefl 0)

/-- Every step keeps the invariant. -/
theorem OnceInv.step {s s' : FutexState OnceControl OncePoint T} {t : T}
    (hstep : FutexThreads.Step pthreadOnce s t s') (h : OnceInv s) : OnceInv s' := by
  have hphase := h.phase
  have hattended := h.attended
  cases hstep with
  | run hrun => exact h.run hrun
  | call hcall =>
      have hpass := @OnceInv.pass T _ _ s h t
      rcases hcall with ⟨hpoint, rfl⟩ | ⟨hpoint, rfl⟩
      · rcases hpoint with hpoint | hpoint | hpoint
        all_goals
          rw [hpoint] at hpass
          refine hpass (fun hended => hended.elim) rfl rfl
            fun sleeping waking hsleeping hwaking => ?_
          simp at hsleeping hwaking
          omega
      · rw [hpoint] at hpass
        refine hpass (fun hended => hended.elim) rfl rfl fun sleeping waking hsleeping hwaking => ?_
        simp at hsleeping hwaking
        omega
  | stir hasleep hc =>
      obtain rfl : _ = (s.control t).roused := hc.elim id id
      exact h.stir hasleep
  | refuse hrefused => exact h.refuse hrefused
  | wakeOne hwakes =>
      obtain ⟨_, _, hall, _⟩ := pthreadOnce_wakes hwakes
      cases hall
  | wakeNone hwakes =>
      obtain ⟨_, _, hall, _⟩ := pthreadOnce_wakes hwakes
      cases hall
  | wakeAll hwakes =>
      obtain ⟨returns, hpoint, -, rfl⟩ := pthreadOnce_wakes hwakes
      obtain ⟨hroused, hnone⟩ := h.rouseAll (s.control t)
      have hpass := @OnceInv.pass T _ _ _ hroused t (if returns then .returned else .cancelled)
      have hdone := hroused.ended t
      have hsame : FutexThreads.rouseAll pthreadOnce (s.control t) s.control t = .wake returns := by
        unfold FutexThreads.rouseAll
        rw [hpoint]
        rfl
      dsimp only at hpass hdone
      rw [hsame] at hpass hdone
      rw [hnone] at hpass
      cases returns with
      | true =>
          refine hpass (fun _ => hdone trivial) rfl rfl fun sleeping waking hsleeping hwaking => ?_
          simp at hsleeping
          omega
      | false =>
          refine hpass (fun hended => hended.elim) rfl rfl
            fun sleeping waking hsleeping hwaking => ?_
          simp at hsleeping
          omega

theorem onceInit_reaches {s : FutexState OnceControl OncePoint T} {labels : List T}
    (hrun : Run (FutexThreads.Step pthreadOnce) onceInit labels s) : OnceInv s :=
  hrun.preserves (fun h hstep => h.step hstep) onceInit_inv

/-- One thread at most runs the initialisation, which comes to its end once at most, and no
call returns before that. -/
theorem pthreadOnce_once {s : FutexState OnceControl OncePoint T} {labels : List T}
    (hrun : Run (FutexThreads.Step pthreadOnce) onceInit labels s) :
    (∀ t u, (s.control t).running = 1 → (s.control u).running = 1 → t = u) ∧
    s.memory.inits ≤ 1 ∧
    ∀ t, (s.control t).Ended → s.memory.inits = 1 ∧ ∀ u, (s.control u).running = 0 := by
  have h := onceInit_reaches hrun
  have hphase := h.phase
  have hfinishers := finishing_le_running s.control
  refine ⟨?_, by omega, ?_⟩
  · intro t u ht hu
    by_contra hne
    have htwo := add_le_total OncePoint.running s.control hne
    omega
  · intro t ht
    have hword := h.ended t ht
    refine ⟨by omega, fun u => ?_⟩
    have hrunning := le_total OncePoint.running s.control u
    omega

/-- The thread is in a call, does not run `init`, and neither sleeps nor is at the mercy of the
host. -/
def OncePoint.asking : OncePoint → Bool
  | .check | .enter | .mark => true
  | .wait point => point.free
  | _ => false

/-- By so many accesses of a thread at `c` the call returns, if the word is 2, or begins `init`. -/
def OncePoint.Settles (T : Type) (bound : Nat) (m : OnceControl) (c : OncePoint) : Prop :=
  ∀ t : T, ∃ n ≤ bound, pthreadOnce.alone t n m c =
    some (if m.word = 2 then (m, .returned) else ({ m with word := 1 }, .init))

omit [Fintype T] [DecidableEq T] in
theorem OncePoint.enter_settles {m : OnceControl} (hidle : m.word = 0 ∨ m.word = 2) :
    OncePoint.enter.Settles T 1 m := by
  intro t
  refine ⟨1, by decide, ?_⟩
  rcases hidle with hword | hword <;>
    simp [FutexProgram.alone, pthreadOnce, OncePoint.run, hword]

omit [Fintype T] [DecidableEq T] in
theorem OncePoint.wait_settles {m : OnceControl} {point : WaitPoint}
    (hidle : m.word = 0 ∨ m.word = 2) (hfree : point.free = true) :
    (OncePoint.wait point).Settles T 3 m := by
  intro t
  have hdiffers : m.word ≠ 3 := by omega
  have hturns : ∀ point : WaitPoint, pthreadOnce.run t m (.wait point) =
      (point.turn false OncePoint.wait .enter).map fun c => (m, c) := fun point => by
    simp [pthreadOnce, OncePoint.run, hdiffers]
  obtain ⟨k, hk, hleaves⟩ := WaitPoint.leaves_alone hturns hfree
  obtain ⟨n, hn, henter⟩ := @OncePoint.enter_settles T m hidle t
  exact ⟨k + n, by omega, by rw [FutexProgram.alone_add hleaves, henter]⟩

omit [Fintype T] [DecidableEq T] in
/-- A call that meets no running initialisation returns, or begins it. -/
theorem OncePoint.asking_settles {m : OnceControl} {c : OncePoint}
    (hidle : m.word = 0 ∨ m.word = 2) (hasking : c.asking = true) : c.Settles T 3 m := by
  intro t
  obtain ⟨n, hn, henter⟩ := @OncePoint.enter_settles T m hidle t
  cases c with
  | check =>
      rcases hidle with hword | hword
      · exact ⟨2, by decide, by simp [FutexProgram.alone, pthreadOnce, OncePoint.run, hword]⟩
      · exact ⟨1, by decide, by simp [FutexProgram.alone, pthreadOnce, OncePoint.run, hword]⟩
  | enter => exact ⟨n, by omega, henter⟩
  | mark =>
      have hmark : pthreadOnce.alone t 2 m .mark = some (m, .enter) := by
        rcases hidle with hword | hword <;>
          simp [FutexProgram.alone, pthreadOnce, OncePoint.run, WaitPoint.turn, hword]
      exact ⟨2 + n, by omega, by rw [FutexProgram.alone_add hmark, henter]⟩
  | wait point => exact OncePoint.wait_settles hidle hasking t
  | _ => cases hasking

/-- Whoever sleeps is woken later: by a thread that has found the 3 and is about to wake all,
or by the one that runs the initialisation and will find it.  A call that is awake does not
depend on another thread unless one runs the initialisation; at the entry of the wait it depends
on the host, which is documented to answer an error there. -/
theorem pthreadOnce_progress {s : FutexState OnceControl OncePoint T} {labels : List T}
    (hrun : Run (FutexThreads.Step pthreadOnce) onceInit labels s) (t : T) :
    ((s.control t).asleep = true →
      (∃ u returns, s.control u = .wake returns) ∨
        s.memory.word = 3 ∧ ∃ u, (s.control u).running = 1) ∧
    ((∀ u, (s.control u).running = 0) →
      ((s.control t).asking = true → (s.control t).Settles T 3 s.memory) ∧
      (s.control t = .wait .entering → ∃ c, (s.control t).refused s.memory = some c ∧
        c.Settles T 3 s.memory)) := by
  have h := onceInit_reaches hrun
  have hphase := h.phase
  refine ⟨fun hasleep => ?_, fun hnone => ?_⟩
  · have hsleeping : 0 < total OncePoint.sleeping s.control := by
      refine total_pos_iff.mpr ⟨t, ?_⟩
      generalize s.control t = point at hasleep
      cases point with
      | wait point =>
          cases point with
          | asleep => exact Nat.one_pos
          | _ => cases hasleep
      | _ => cases hasleep
    rcases h.attended hsleeping with hthree | hwaking
    · refine Or.inr ⟨hthree, ?_⟩
      obtain ⟨u, hu⟩ := (@total_pos_iff OncePoint T _ OncePoint.running s.control).mp (by omega)
      have hone := le_total OncePoint.running s.control u
      exact ⟨u, by omega⟩
    · refine Or.inl ?_
      obtain ⟨u, hu⟩ := total_pos_iff.mp hwaking
      refine ⟨u, ?_⟩
      generalize s.control u = point at hu
      cases point with
      | wake returns => exact ⟨returns, rfl⟩
      | _ => exact absurd hu (Nat.lt_irrefl 0)
  · have hzero : total OncePoint.running s.control = 0 := Finset.sum_eq_zero fun u _ => hnone u
    have hidle : s.memory.word = 0 ∨ s.memory.word = 2 := by omega
    refine ⟨OncePoint.asking_settles hidle, fun hentering => ?_⟩
    have hdiffers : s.memory.word ≠ 3 := by omega
    refine ⟨.wait (.looking 0), ?_, OncePoint.wait_settles hidle rfl⟩
    rw [hentering]
    simp [OncePoint.refused, WaitPoint.refused, hdiffers]

namespace OnceWitness

/-- The second thread waits for the first, whose initialisation is then cancelled when a third
one has called. -/
def schedule : List (Move OncePoint Caller) :=
  [.call .first .check, .alone .first 2, .call .second .check, .alone .second 106,
    .call .third .check, .call .first .undo, .alone .first 1]

def abandoned : Option (FutexState OnceControl OncePoint Caller) :=
  replay pthreadOnce onceInit schedule

/-- The second thread begins the initialisation anew and ends it. -/
def repeated : Option (FutexState OnceControl OncePoint Caller) :=
  replay pthreadOnce onceInit (schedule ++ [.wake .first .second, .alone .second 4])

theorem repeated_once : ∃ s, repeated = some s ∧ s.memory.inits = 1 ∧
    ∀ u, (s.control u).running = 0 := by
  obtain ⟨s, hs⟩ := Option.isSome_iff_exists.mp (show repeated.isSome = true by decide +kernel)
  obtain ⟨labels, hrun⟩ := replay_run hs
  have hended : ∀ s ∈ repeated, s.control .second = .returned := by decide +kernel
  have hended : (s.control .second).Ended := by
    rw [hended s hs]
    exact trivial
  exact ⟨s, hs, (pthreadOnce_once hrun).2.2 .second hended⟩

/-- The second thread sleeps until the first wakes it, and the third does not wait for either. -/
theorem abandoned_progress : ∃ s, abandoned = some s ∧
    ((∃ u returns, s.control u = .wake returns) ∨
      s.memory.word = 3 ∧ ∃ u, (s.control u).running = 1) ∧
    (s.control .third).Settles Caller 3 s.memory := by
  obtain ⟨s, hs⟩ := Option.isSome_iff_exists.mp (show abandoned.isSome = true by decide +kernel)
  obtain ⟨labels, hrun⟩ := replay_run hs
  have hasleep : ∀ s ∈ abandoned, (s.control .second).asleep = true := by decide +kernel
  have hasking : ∀ s ∈ abandoned, (s.control .third).asking = true := by decide +kernel
  have hidle : ∀ s ∈ abandoned, ∀ u, (s.control u).running = 0 := by decide +kernel
  exact ⟨s, hs, (pthreadOnce_progress hrun .second).1 (hasleep s hs),
    ((pthreadOnce_progress hrun .third).2 (hidle s hs)).1 (hasking s hs)⟩

end OnceWitness

end Sync

end WasixLibc
