/-
Waits without a deadline, and the wait of `pthread_join`.

The wait reads its word twice and asks the host in between, and the thread it
waits for goes on all the while.  A host that was not woken has timed out by
its own account, so the wait of a join can end there.
-/
import WasixLibc.ThreadLifetime
import WasixLibc.TimedWait

namespace WasixLibc

namespace Threads

open Futex

/-! One wait -/

section Wait

variable (env : Env) (val : BitVec 32)

/-- The host has said of a word that has not changed that nobody woke it. -/
theorem futexWaitWasix_etimedout_iff (maxWaitNs : BitVec 64) :
    (futexWaitWasix env val maxWaitNs).2 = .returned (some .etimedout) ↔
      env.addr &&& 3 = 0 ∧ env.value = val ∧ env.hostOk = true ∧ env.woken = false ∧
        env.valueAfter = val := by
  unfold futexWaitWasix
  by_cases haddr : env.addr &&& 3 = 0
  · rw [if_neg (not_not_intro haddr)]
    dsimp only
    by_cases hvalue : env.value = val
    · rw [if_neg (not_not_intro hvalue)]
      cases hok : env.hostOk with
      | false => simp
      | true =>
          cases hwoken : env.woken with
          | true => simp
          | false =>
              by_cases hafter : env.valueAfter = val
              · exact iff_of_true (by simp [hafter]) ⟨haddr, hvalue, rfl, rfl, hafter⟩
              · simp [hafter]
    · rw [if_pos hvalue]
      simp [hvalue]
  · rw [if_pos haddr]
    simp only [Outcome.returned.injEq, Option.some.injEq, reduceCtorEq, haddr, false_and]

theorem reportedOutcome_etimedout_iff (waits : Waits) :
    (reportedOutcome waits).2 = .returned (some .etimedout) ↔
      waits.2 = .returned (some .etimedout) := by
  obtain ⟨timeouts, outcome⟩ := waits
  cases outcome with
  | trapped => simp [reportedOutcome]
  | returned errno =>
      cases errno with
      | none => simp [reportedOutcome, reported]
      | some errno => cases errno <;> simp [reportedOutcome, reported]

theorem timedwaitCp_untimed_etimedout_iff :
    (timedwaitCp env val none).2 = .returned (some .etimedout) ↔
      env.addr &&& 3 = 0 ∧ env.value = val ∧ env.hostOk = true ∧ env.woken = false ∧
        env.valueAfter = val :=
  (reportedOutcome_etimedout_iff _).trans (futexWaitWasix_etimedout_iff env val _)

end Wait

/-! The wait of a join, step by step -/

def DetachState.code : DetachState → BitVec 32
  | .exited => 0
  | .exiting => 1
  | .joinable => 2
  | .detached => 3

theorem DetachState.code_inj {a b : DetachState} : a.code = b.code ↔ a = b := by
  cases a <;> cases b <;> decide

/-- Where a join is in `__timedwait_cp`, called with what it has read as
`val`. -/
inductive WaitPoint where
  | outside
  | called (val : DetachState)
  | asleep (val : DetachState)
  | answered (val : DetachState) (hostOk woken : Bool)
  | trapped
  deriving DecidableEq

/-- The address of `detach_state`, which holds an `int`. -/
structure JoinedWord where
  addr : BitVec 32
  aligned : addr &&& 3 = 0

structure JoinState where
  life : Lifetime
  wait : WaitPoint

def JoinState.init (e : ExitingThread) : JoinState := ⟨Lifetime.init e, .outside⟩

/-- The loop goes on with any result but `ETIMEDOUT`; the other one that ends it,
`EINVAL`, is that of a deadline. -/
def JoinState.afterWait (j : JoinState) : Outcome → JoinState
  | .trapped => { j with wait := .trapped }
  | .returned (some .etimedout) => ⟨{ j.life with peer := .timedOut }, .outside⟩
  | .returned _ => ⟨{ j.life with peer := .joining }, .outside⟩

/-- What a wait has met that found `value` in the word, and `valueAfter` when
the host had answered. -/
def JoinedWord.env (w : JoinedWord) (value valueAfter : DetachState) (hostOk woken : Bool) :
    Env where
  clock := none
  addr := w.addr
  value := value.code
  valueAfter := valueAfter.code
  hostOk := hostOk
  woken := woken

inductive JoinEvent where
  | base (event : LifetimeEvent)
  | readDetachState
  | checkWord
  | answer (hostOk woken : Bool)
  | recheckWord

/-- A step of `pthread_join` that is refined here. -/
def LifetimeEvent.InWait : LifetimeEvent → Prop
  | .peer .readDetachState | .peer .endWait | .peer .timeOut => True
  | .exit _ | .peer _ | .otherLocks _ | .otherUnlocks => False

/-- The steps of `LifetimeStep`, with those of the wait in its place.  The host
may answer anything at any time. -/
inductive JoinStep (e : ExitingThread) (w : JoinedWord) : JoinState → JoinEvent → JoinState → Prop
  | base {j : JoinState} {event : LifetimeEvent} {life : Lifetime} (hevent : ¬event.InWait)
      (hstep : LifetimeStep e j.life event life) :
      JoinStep e w j (.base event) { j with life := life }
  | readDetachState {j : JoinState} {life : Lifetime}
      (hstep : PeerStep e j.life .readDetachState life) :
      JoinStep e w j .readDetachState ⟨life, .called j.life.detachState⟩
  | checkWord {j : JoinState} {val : DetachState} (hpeer : j.life.peer = .waiting)
      (hwait : j.wait = .called val) :
      JoinStep e w j .checkWord
        (if j.life.detachState = val then { j with wait := .asleep val }
        -- the call returns before it comes to the host
        else j.afterWait
          (timedwaitCp (w.env j.life.detachState j.life.detachState true true) val.code none).2)
  | answer {j : JoinState} {val : DetachState} (hpeer : j.life.peer = .waiting)
      (hwait : j.wait = .asleep val) (hostOk woken : Bool) :
      JoinStep e w j (.answer hostOk woken) { j with wait := .answered val hostOk woken }
  | recheckWord {j : JoinState} {val : DetachState} {hostOk woken : Bool}
      (hpeer : j.life.peer = .waiting) (hwait : j.wait = .answered val hostOk woken) :
      JoinStep e w j .recheckWord
        (j.afterWait
          (timedwaitCp (w.env val j.life.detachState hostOk woken) val.code none).2)

section Run

variable {e : ExitingThread} {w : JoinedWord} {j j' : JoinState} {event : JoinEvent}

theorem afterWait_timedOut {outcome : Outcome} (hpeer : j.life.peer = .waiting) :
    (j.afterWait outcome).life.peer = .timedOut ↔ outcome = .returned (some .etimedout) := by
  cases outcome with
  | trapped =>
      have hwaits : (j.afterWait .trapped).life.peer = .waiting := hpeer
      rw [hwaits]
      simp only [reduceCtorEq]
  | returned errno =>
      cases errno with
      | none => simp [JoinState.afterWait]
      | some errno => cases errno <;> simp [JoinState.afterWait]

theorem afterWait_wait (j : JoinState) (outcome : Outcome) :
    (j.afterWait outcome).wait = if outcome = .trapped then .trapped else .outside := by
  cases outcome with
  | trapped => rfl
  | returned errno =>
      cases errno with
      | none => rfl
      | some errno => cases errno <;> rfl

/-- The end of a wait is a step of the coarse system, or none if it traps. -/
theorem afterWait_simulates {outcome : Outcome} (hpeer : j.life.peer = .waiting) :
    (j.afterWait outcome).life = j.life ∨
      ∃ event, LifetimeStep e j.life event (j.afterWait outcome).life := by
  cases outcome with
  | trapped => exact Or.inl rfl
  | returned errno =>
      right
      cases errno with
      | none => exact ⟨_, .peer (.endWait hpeer)⟩
      | some errno =>
          cases errno with
          | etimedout => exact ⟨_, .peer (.timeOut hpeer)⟩
          | einval => exact ⟨_, .peer (.endWait hpeer)⟩
          | ewouldblock => exact ⟨_, .peer (.endWait hpeer)⟩
          | eintr => exact ⟨_, .peer (.endWait hpeer)⟩
          | ecanceled => exact ⟨_, .peer (.endWait hpeer)⟩

/-- The refined system does what the coarse one does. -/
theorem joinStep_simulates (hstep : JoinStep e w j event j') :
    j'.life = j.life ∨ ∃ event, LifetimeStep e j.life event j'.life := by
  cases hstep with
  | base hevent hstep => exact Or.inr ⟨_, hstep⟩
  | readDetachState hstep => exact Or.inr ⟨_, .peer hstep⟩
  | checkWord hpeer hwait =>
      split
      · exact Or.inl rfl
      · exact afterWait_simulates hpeer
  | answer hpeer hwait hostOk woken => exact Or.inl rfl
  | recheckWord hpeer hwait => exact afterWait_simulates hpeer

theorem joinRun_owned {events : List JoinEvent}
    (hrun : Run (JoinStep e w) (JoinState.init e) events j) : j.life.Owned e := by
  induction hrun with
  | nil => exact init_owned e
  | snoc _ hstep ih =>
      rcases joinStep_simulates hstep with hsame | ⟨event, hlife⟩
      · rw [hsame]
        exact ih
      · exact lifetimeStep_owned ih hlife

/-- Only the end of a wait times out. -/
theorem lifetimeStep_timedOut {s s' : Lifetime} {event : LifetimeEvent} (hevent : ¬event.InWait)
    (hstep : LifetimeStep e s event s') (hout : s'.peer = .timedOut) : s.peer = .timedOut := by
  cases hstep with
  | exit hexit => cases hexit <;> exact hout
  | otherLocks hlock htid hother => exact hout
  | otherUnlocks hlock => exact hout
  | peer hpeer =>
      cases hpeer with
      | readDetachState hpoint => exact absurd trivial hevent
      | endWait hpoint => exact absurd trivial hevent
      | timeOut hpoint => exact absurd trivial hevent
      | callDetach hpoint hcreated => cases hout
      | callJoin hpoint hcreated => cases hout
      | compareAndSwap hpoint =>
          split at hout
          · cases hout
          · cases hout
      | readListLock hpoint =>
          dsimp only at hout
          split at hout
          · cases hout
          · cases hout
      | listLockChanged hpoint hlock => cases hout
      | freeBlock hpoint => cases hout

/-- What the host has answered to the wait under way, it has answered. -/
theorem joinRun_answered {events : List JoinEvent} {val : DetachState} {hostOk woken : Bool}
    (hrun : Run (JoinStep e w) (JoinState.init e) events j)
    (hwait : j.wait = .answered val hostOk woken) : .answer hostOk woken ∈ events := by
  induction hrun with
  | nil => cases hwait
  | @snoc events mid j event hfirst hstep ih =>
      cases hstep with
      | base hevent hlife => exact List.mem_append_left _ (ih hwait)
      | readDetachState hread => cases hwait
      | checkWord hpeer hcalled =>
          split at hwait
          · cases hwait
          · rw [afterWait_wait] at hwait
            split at hwait <;> cases hwait
      | answer hpeer hasleep hostOk woken =>
          cases hwait
          exact List.mem_append_right _ List.mem_cons_self
      | recheckWord hpeer hanswered =>
          rw [afterWait_wait] at hwait
          split at hwait <;> cases hwait

/-- The wait has timed out: the host answered that it was not woken, and the
word was as before. -/
def TimedOutAt (e : ExitingThread) (w : JoinedWord) (events : List JoinEvent) : Prop :=
  ∃ before after mid val, events = before ++ .recheckWord :: after ∧
    .answer true false ∈ before ∧ Run (JoinStep e w) (JoinState.init e) before mid ∧
      mid.wait = .answered val true false ∧ mid.life.detachState = val

/-- A join that has timed out has done so in its wait. -/
theorem joinRun_timedOut {events : List JoinEvent}
    (hrun : Run (JoinStep e w) (JoinState.init e) events j) (hout : j.life.peer = .timedOut) :
    TimedOutAt e w events := by
  induction hrun with
  | nil => cases hout
  | @snoc events mid j event hfirst hstep ih =>
      have hlater : mid.life.peer = .timedOut → TimedOutAt e w (events ++ [event]) := by
        intro hmid
        obtain ⟨before, after, start, val, rfl, hanswer, hbefore, hwait, hword⟩ := ih hmid
        exact ⟨before, after ++ [event], start, val, by simp, hanswer, hbefore, hwait, hword⟩
      cases hstep with
      | base hevent hlife => exact hlater (lifetimeStep_timedOut hevent hlife hout)
      | readDetachState hread =>
          cases hread with
          | readDetachState hpoint =>
              dsimp only at hout
              split at hout
              · cases hout
              · cases hout
              · cases hout
              · cases hout
      | @checkWord val hpeer hwait =>
          exfalso
          split at hout
          · rw [hpeer] at hout
            cases hout
          · rename_i hchanged
            rw [afterWait_timedOut hpeer, timedwaitCp_untimed_etimedout_iff] at hout
            exact hchanged (DetachState.code_inj.mp hout.2.1)
      | answer hpeer hwait hostOk woken =>
          rw [hpeer] at hout
          cases hout
      | @recheckWord val hostOk woken hpeer hwait =>
          rw [afterWait_timedOut hpeer, timedwaitCp_untimed_etimedout_iff] at hout
          obtain ⟨-, -, hok, hwoken, hafter⟩ := hout
          have hok' : hostOk = true := hok
          have hwoken' : woken = false := hwoken
          subst hok' hwoken'
          exact ⟨events, [], mid, val, rfl, joinRun_answered hfirst hwait, hfirst, hwait,
          DetachState.code_inj.mp hafter⟩

/-- A wait without a deadline, and in every run the wait of a join, times out
only by the word of the host that it was not woken while the word in memory
stayed the same; a join that has returned 0 has outlived its thread. -/
theorem joinRun_untimed {events : List JoinEvent} (env : Env) (val : BitVec 32)
    (hrun : Run (JoinStep e w) (JoinState.init e) events j) :
    ((timedwaitCp env val none).2 = .returned (some .etimedout) ↔
      env.addr &&& 3 = 0 ∧ env.value = val ∧ env.hostOk = true ∧ env.woken = false ∧
        env.valueAfter = val) ∧
    (j.life.peer = .timedOut → TimedOutAt e w events) ∧
    (j.life.peer = .joined → j.life.detachState = .exited ∧ j.life.exit.HandedOver) := by
  have howned := joinRun_owned hrun
  refine ⟨timedwaitCp_untimed_etimedout_iff env val, joinRun_timedOut hrun, fun hjoined => ?_⟩
  exact ⟨howned.sync (by rw [hjoined]; trivial), howned.collect (Or.inr hjoined)⟩

end Run

namespace UntimedWitness

open LifetimeWitness

def word : JoinedWord := ⟨4096, rfl⟩

/-- The host has answered at once that it was not woken, and the thread is
still running. -/
def gaveUp : JoinState := ⟨{ Lifetime.init thread with peer := .timedOut }, .outside⟩

theorem gaveUp_last : JoinStep thread word
    ⟨{ Lifetime.init thread with peer := .waiting }, .answered .joinable true false⟩ .recheckWord
    gaveUp := by
  have hout : (timedwaitCp (word.env .joinable .joinable true false)
      DetachState.joinable.code none).2 = .returned (some .etimedout) := by decide
  have hstep : JoinStep thread word
      ⟨{ Lifetime.init thread with peer := .waiting }, .answered .joinable true false⟩ .recheckWord
      (JoinState.afterWait
        ⟨{ Lifetime.init thread with peer := .waiting }, .answered .joinable true false⟩
        (timedwaitCp (word.env .joinable .joinable true false) DetachState.joinable.code none).2) :=
    .recheckWord rfl rfl
  rw [hout] at hstep
  exact hstep

theorem gaveUp_run : ∃ events, Run (JoinStep thread word) (JoinState.init thread) events gaveUp :=
  ⟨_, .snoc (.snoc (.snoc (.snoc (.snoc .nil
    (.base id (.peer (.callJoin rfl rfl))))
    (.readDetachState (.readDetachState rfl)))
    (.checkWord rfl rfl))
    (.answer rfl rfl true false))
    gaveUp_last⟩

/-- A join without a deadline times out. -/
theorem join_times_out :
    ¬ ∀ (e : ExitingThread) (w : JoinedWord) (events : List JoinEvent) (j : JoinState),
        Run (JoinStep e w) (JoinState.init e) events j → j.life.peer ≠ .timedOut := by
  intro h
  obtain ⟨events, hrun⟩ := gaveUp_run
  exact h thread word events gaveUp hrun rfl

theorem gaveUp_timedOut : ∃ events, TimedOutAt thread word events := by
  obtain ⟨events, hrun⟩ := gaveUp_run
  have hend := joinRun_untimed ⟨none, 4096, 2, 2, true, false⟩ 2 hrun
  exact ⟨events, hend.2.1 rfl⟩

end UntimedWitness

end Threads

end WasixLibc
