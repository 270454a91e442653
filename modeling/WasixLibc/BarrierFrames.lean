/-
The code of the barrier keeps to the rounds.

The lock of the barrier keeps others away from the instance while a thread looks for
it and counts itself.  With that, each access of the code is a step of the rounds, or
leaves them as they are.
-/
import WasixLibc.BarrierRounds
import WasixLibc.ThreadBarrier

namespace WasixLibc

namespace Sync

open FutexThreads

variable {T : Type}

/-- What a thread has done in its round.  A wait that is about to end has seen the flag. -/
@[simp] def BarrierPoint.stage : BarrierPoint T → Rounds.Stage T
  | .outside | .swapLock | .waitLock _ | .readInst => .away
  | .setInst => .setting
  | .loadCount o => .joining o
  | .storeCount o count => .storing o count
  | .clearInst o => .clearing o
  | .unlock .owner | .readWaiters .owner | .wakeLock .owner | .spin _ | .finish => .owner
  | .unlock (.last o) | .readWaiters (.last o) | .wakeLock (.last o) | .setLast o => .closing o
  | .waitLast o .dec => .late o
  | .unlock (.middle o) | .readWaiters (.middle o) | .wakeLock (.middle o) | .waitLast o _ =>
      .middle o
  | .loop | .waitFinished _ _ => .owned
  | .lastWaiters o | .wakeLast o | .dropCount o => .late o
  | .addFinished o => .exiting o
  | .wakeFinished _ => .gone

/-- The thread has the lock of the barrier. -/
@[simp] def BarrierPoint.inLock : BarrierPoint T → Nat
  | .readInst | .setInst | .loadCount _ | .storeCount _ _ | .clearInst _ | .unlock _ => 1
  | _ => 0

def Instance.frame (f : Instance) : Rounds.Frame := ⟨f.count, f.last, f.finished⟩

def BarrierThread.member (c : BarrierThread T) : Rounds.Member T :=
  ⟨c.returns, c.serials, c.point.stage⟩

/-- What the rounds know of a state of the code. -/
def roundsOf (s : BarrierState T) : Rounds.State T :=
  ⟨s.memory.inst, Instance.frame ∘ s.memory.frames, BarrierThread.member ∘ s.control⟩

/-- `PTHREAD_BARRIER` after `pthread_barrier_init`, with nobody inside. -/
def barrierInit : BarrierState T :=
  ⟨⟨0, 0, none, fun _ => ⟨0, 0, 0, 0⟩⟩, fun _ => ⟨0, 0, .outside⟩⟩

variable [Fintype T]

/-- The lock is taken while a thread has it, and one thread at most does. -/
def LockHeld (s : BarrierState T) : Prop :=
  s.memory.lock ≤ 1 ∧ total (fun c => c.point.inLock) s.control = s.memory.lock

theorem barrierInit_held : LockHeld (barrierInit : BarrierState T) := by
  simp [LockHeld, barrierInit, total]

variable [DecidableEq T]

omit [Fintype T] in
/-- Nothing that the rounds know of has changed. -/
theorem roundsOf_quiet {s : BarrierState T} {t : T}
    {m : BarrierMemory T} {c : BarrierThread T} (hinst : m.inst = s.memory.inst)
    (hframes : Instance.frame ∘ m.frames = Instance.frame ∘ s.memory.frames)
    (hmember : c.member = (s.control t).member) :
    roundsOf ⟨m, Function.update s.control t c⟩ = roundsOf s := by
  unfold roundsOf
  dsimp only
  rw [hinst, hframes, Function.comp_update, hmember]
  congr 1
  exact Function.update_eq_self _ _

omit [Fintype T] in
theorem frames_setFrame (m : BarrierMemory T) (o : T) (f : Instance) :
    Instance.frame ∘ (m.setFrame o f).frames =
      Function.update (Instance.frame ∘ m.frames) o f.frame := by
  unfold BarrierMemory.setFrame
  dsimp only
  rw [Function.comp_update]

omit [Fintype T] in
/-- A change of the waiters is no change for the rounds. -/
theorem frames_waiters (m : BarrierMemory T) (o : T) (waiters : Nat) :
    Instance.frame ∘ (m.setFrame o { m.frames o with waiters }).frames =
      Instance.frame ∘ m.frames := by
  rw [frames_setFrame]
  exact Function.update_eq_self _ _

omit [Fintype T] in
/-- A step of the rounds, from what it does to the instance, the frames and the thread. -/
theorem roundsOf_step {limit : Nat} {s : BarrierState T} {t : T}
    {m : BarrierMemory T} {c : BarrierThread T} {inst : Option T} {frames : T → Rounds.Frame}
    {member : Rounds.Member T}
    (hstep : Rounds.Step limit (roundsOf s) t
      ⟨inst, frames, Function.update (roundsOf s).members t member⟩)
    (hinst : m.inst = inst) (hframes : Instance.frame ∘ m.frames = frames)
    (hmember : c.member = member) :
    Rounds.Step limit (roundsOf s) t (roundsOf ⟨m, Function.update s.control t c⟩) := by
  subst hinst hframes hmember
  unfold roundsOf
  dsimp only
  rw [Function.comp_update]
  exact hstep

omit [Fintype T] [DecidableEq T] in
theorem BarrierPoint.critical_le (point : BarrierPoint T) :
    point.stage.critical ≤ point.inLock := by
  cases point with
  | unlock role => cases role <;> exact Nat.zero_le _
  | readWaiters role => cases role <;> exact Nat.zero_le _
  | wakeLock role => cases role <;> exact Nat.zero_le _
  | waitLast o point => cases point <;> exact Nat.zero_le _
  | _ => simp

/-- No other thread is where the lock keeps it from. -/
theorem LockHeld.others {s : BarrierState T} (h : LockHeld s)
    {t u : T} (ht : (s.control t).point.inLock = 1) (hne : t ≠ u) :
    (s.control u).point.inLock = 0 := by
  have htwo := add_le_total (fun c : BarrierThread T => c.point.inLock) s.control hne
  rw [h.2, ht] at htwo
  have hone := h.1
  omega

omit [Fintype T] [DecidableEq T] in
theorem BarrierPoint.stage_waitLast {o : T} {point : CountedWait} (hpoint : point ≠ .dec) :
    (BarrierPoint.waitLast o point).stage = .middle o := by
  cases point with
  | dec => exact absurd rfl hpoint
  | _ => rfl

omit [Fintype T] in
/-- The wait for the last thread. -/
theorem roundsOf_waitLast {limit : Nat} {s : BarrierState T}
    {t o : T} {point : CountedWait} {waiters : Nat} {c : BarrierThread T}
    (hpoint : (s.control t).point = .waitLast o point)
    (hturn : point.turn ((s.memory.frames o).last = 0) (s.memory.frames o).waiters
      (fun point => (s.control t).go (.waitLast o point)) ((s.control t).go (.dropCount o)) =
        some (waiters, c)) :
    roundsOf ⟨s.memory.setFrame o { s.memory.frames o with waiters },
        Function.update s.control t c⟩ = roundsOf s ∨
      Rounds.Step limit (roundsOf s) t
        (roundsOf ⟨s.memory.setFrame o { s.memory.frames o with waiters },
          Function.update s.control t c⟩) := by
  have hframes := frames_waiters s.memory o waiters
  by_cases hdec : point = .dec
  · subst hdec
    simp only [CountedWait.turn, Option.some.injEq, Prod.mk.injEq] at hturn
    obtain ⟨-, rfl⟩ := hturn
    refine Or.inl (roundsOf_quiet rfl hframes ?_)
    unfold BarrierThread.member BarrierThread.go
    rw [hpoint]
    rfl
  · have hstage : ((roundsOf s).members t).stage = .middle o := by
      show (s.control t).point.stage = _
      rw [hpoint, BarrierPoint.stage_waitLast hdec]
    have hpasses : decide ((s.memory.frames o).last = 0) = false → c.member.stage = .late o →
        c.member = ((roundsOf s).members t).go c.member.stage → Rounds.Step limit (roundsOf s) t
          (roundsOf ⟨s.memory.setFrame o { s.memory.frames o with waiters },
            Function.update s.control t c⟩) := by
      intro hlast hlate hmember
      rw [hlate] at hmember
      exact roundsOf_step (.passes hstage (of_decide_eq_false hlast)) rfl hframes hmember
    obtain ⟨-, ⟨rfl, hleave⟩ | ⟨next, rfl, hnext, -⟩⟩ := CountedWait.turn_cases hturn
    · exact Or.inr (hpasses (hleave.resolve_right hdec) rfl rfl)
    · by_cases hlast : next = .dec
      · subst hlast
        exact Or.inr (hpasses (hnext rfl) rfl rfl)
      · refine Or.inl (roundsOf_quiet rfl hframes ?_)
        unfold BarrierThread.member BarrierThread.go
        rw [hpoint, BarrierPoint.stage_waitLast hdec, BarrierPoint.stage_waitLast hlast]

/-- An access of the code is a step of the rounds, or none. -/
theorem LockHeld.run_refines {limit : Nat} {s : BarrierState T} (h : LockHeld s) {t : T}
    {m : BarrierMemory T} {c : BarrierThread T}
    (hrun : (s.control t).run limit t s.memory = some (m, c)) :
    roundsOf ⟨m, Function.update s.control t c⟩ = roundsOf s ∨
      Rounds.Step limit (roundsOf s) t (roundsOf ⟨m, Function.update s.control t c⟩) := by
  unfold BarrierThread.run at hrun
  -- the thread goes to a point that is the same for the rounds
  have hquiet : ∀ point : BarrierPoint T, point.stage = (s.control t).point.stage →
      ((s.control t).go point).member = (s.control t).member := by
    intro point hstage
    unfold BarrierThread.member BarrierThread.go
    rw [hstage]
  have hstage : ∀ stage : Rounds.Stage T, (s.control t).point.stage = stage →
      ((roundsOf s).members t).stage = stage := fun _ hstage => hstage
  cases hpoint : (s.control t).point with
  | outside | wakeLock role | wakeLast o | wakeFinished o =>
      rw [hpoint] at hrun
      cases hrun
  | swapLock =>
      rw [hpoint] at hrun hquiet
      cases hrun
      exact Or.inl (roundsOf_quiet rfl rfl (hquiet _ (by split <;> rfl)))
  | waitLock point =>
      rw [hpoint] at hrun hquiet
      obtain ⟨⟨waiters, c⟩, hturn, hnext⟩ := Option.map_eq_some_iff.mp hrun
      cases hnext
      obtain ⟨-, ⟨rfl, -⟩ | ⟨next, rfl, -⟩⟩ := CountedWait.turn_cases hturn
      · exact Or.inl (roundsOf_quiet rfl rfl (hquiet _ rfl))
      · exact Or.inl (roundsOf_quiet rfl rfl (hquiet _ rfl))
  | readInst =>
      rw [hpoint] at hrun hstage
      cases hrun
      have hfree : ∀ u, ((roundsOf s).members u).stage.critical = 0 := by
        intro u
        show (s.control u).point.stage.critical = 0
        by_cases hut : t = u
        · rw [← hut, hpoint]
          rfl
        · refine Nat.le_zero.mp ((BarrierPoint.critical_le _).trans ?_)
          exact (h.others (by rw [hpoint]; rfl) hut).le
      refine Or.inr (roundsOf_step (.enters (hstage .away rfl) hfree) rfl rfl ?_)
      show (BarrierThread.go _ (s.memory.inst.elim .setInst .loadCount)).member =
        Rounds.Member.go _ (s.memory.inst.elim .setting .joining)
      cases s.memory.inst <;> rfl
  | setInst =>
      rw [hpoint] at hrun hstage
      cases hrun
      exact Or.inr (roundsOf_step (.opens (hstage .setting rfl)) rfl (Function.comp_update ..) rfl)
  | loadCount o =>
      rw [hpoint] at hrun hstage
      cases hrun
      exact Or.inr (roundsOf_step (.loads (hstage (.joining o) rfl)) rfl rfl rfl)
  | storeCount o count =>
      rw [hpoint] at hrun hstage
      cases hrun
      refine Or.inr (roundsOf_step (.stores (hstage (.storing o count) rfl)) rfl
        (frames_setFrame ..) ?_)
      split <;> rfl
  | clearInst o =>
      rw [hpoint] at hrun hstage
      cases hrun
      exact Or.inr (roundsOf_step (.clears (hstage (.clearing o) rfl)) rfl rfl rfl)
  | unlock role =>
      rw [hpoint] at hrun hquiet
      cases hrun
      exact Or.inl (roundsOf_quiet rfl rfl (hquiet _ (by cases role <;> rfl)))
  | readWaiters role =>
      rw [hpoint] at hrun hquiet
      cases hrun
      exact Or.inl (roundsOf_quiet rfl rfl (hquiet _ (by split <;> cases role <;> rfl)))
  | spin spins =>
      rw [hpoint] at hrun hquiet
      cases hrun
      refine Or.inl (roundsOf_quiet rfl rfl (hquiet _ ?_))
      split
      · rfl
      · split <;> rfl
  | finish =>
      rw [hpoint] at hrun hstage
      cases hrun
      exact Or.inr (roundsOf_step (.owns (hstage .owner rfl)) rfl (frames_setFrame ..) rfl)
  | loop =>
      rw [hpoint] at hrun hquiet hstage
      cases hrun
      split
      · exact Or.inl (roundsOf_quiet rfl rfl (hquiet _ rfl))
      · rename_i hfinished
        exact Or.inr (roundsOf_step (.leaves (hstage .owned rfl) hfinished) rfl rfl rfl)
  | waitFinished o point =>
      rw [hpoint] at hrun hquiet
      obtain ⟨c, hturn, hnext⟩ := Option.map_eq_some_iff.mp hrun
      cases hnext
      obtain ⟨-, rfl | ⟨next, rfl, -⟩⟩ := WaitPoint.turn_cases hturn
      · exact Or.inl (roundsOf_quiet rfl rfl (hquiet _ rfl))
      · exact Or.inl (roundsOf_quiet rfl rfl (hquiet _ rfl))
  | setLast o =>
      rw [hpoint] at hrun hstage
      cases hrun
      exact Or.inr (roundsOf_step (.publishes (hstage (.closing o) rfl)) rfl
        (frames_setFrame ..) rfl)
  | lastWaiters o =>
      rw [hpoint] at hrun hquiet
      cases hrun
      exact Or.inl (roundsOf_quiet rfl rfl (hquiet _ (by split <;> rfl)))
  | waitLast o point =>
      rw [hpoint] at hrun
      obtain ⟨⟨waiters, c⟩, hturn, hnext⟩ := Option.map_eq_some_iff.mp hrun
      cases hnext
      exact roundsOf_waitLast hpoint hturn
  | dropCount o =>
      rw [hpoint] at hrun hstage
      cases hrun
      refine Or.inr (roundsOf_step (.drops (hstage (.late o) rfl)) rfl (frames_setFrame ..) ?_)
      show BarrierThread.member (if (s.memory.frames o).count = 1 then _ else _) =
        if (s.memory.frames o).count = 1 then _ else _
      split <;> rfl
  | addFinished o =>
      rw [hpoint] at hrun hstage
      cases hrun
      refine Or.inr (roundsOf_step (.finishes (hstage (.exiting o) rfl)) rfl
        (frames_setFrame ..) ?_)
      show BarrierThread.member (if (s.memory.frames o).finished ≠ 0 then _ else _) =
        if (s.memory.frames o).finished ≠ 0 then _ else _
      split <;> rfl

omit [Fintype T] [DecidableEq T] in
/-- What an access does with the lock. -/
theorem BarrierThread.run_lock [DecidableEq T] {limit : Nat} {t : T} {m m' : BarrierMemory T}
    {c c' : BarrierThread T} (hrun : c.run limit t m = some (m', c')) :
    m'.lock = m.lock ∧ c'.point.inLock = c.point.inLock ∨
      m'.lock = 1 ∧ c.point.inLock = 0 ∧ c'.point.inLock = 1 - m.lock ∨
      m'.lock = 0 ∧ c.point.inLock = 1 ∧ c'.point.inLock = 0 := by
  obtain ⟨returns, serials, point⟩ := c
  cases point with
  | outside | wakeLock role | wakeLast o | wakeFinished o => cases hrun
  | swapLock =>
      cases hrun
      refine Or.inr (Or.inl ⟨rfl, rfl, ?_⟩)
      cases m.lock <;> simp [BarrierThread.go]
  | unlock role =>
      cases hrun
      exact Or.inr (Or.inr ⟨rfl, rfl, rfl⟩)
  | waitLock point =>
      obtain ⟨⟨waiters, c⟩, hturn, hnext⟩ := Option.map_eq_some_iff.mp hrun
      cases hnext
      obtain ⟨-, ⟨rfl, -⟩ | ⟨next, rfl, -⟩⟩ := CountedWait.turn_cases hturn
      · exact Or.inl ⟨rfl, rfl⟩
      · exact Or.inl ⟨rfl, rfl⟩
  | waitFinished o point =>
      obtain ⟨c, hturn, hnext⟩ := Option.map_eq_some_iff.mp hrun
      cases hnext
      obtain ⟨-, rfl | ⟨next, rfl, -⟩⟩ := WaitPoint.turn_cases hturn
      · exact Or.inl ⟨rfl, rfl⟩
      · exact Or.inl ⟨rfl, rfl⟩
  | waitLast o point =>
      obtain ⟨⟨waiters, c⟩, hturn, hnext⟩ := Option.map_eq_some_iff.mp hrun
      cases hnext
      obtain ⟨-, ⟨rfl, -⟩ | ⟨next, rfl, -⟩⟩ := CountedWait.turn_cases hturn
      · exact Or.inl ⟨rfl, rfl⟩
      · exact Or.inl ⟨rfl, rfl⟩
  | readInst =>
      cases hrun
      refine Or.inl ⟨rfl, ?_⟩
      cases m.inst <;> rfl
  | readWaiters role =>
      cases hrun
      refine Or.inl ⟨rfl, ?_⟩
      dsimp only [BarrierThread.go]
      split
      · rfl
      · cases role <;> rfl
  | spin spins =>
      cases hrun
      refine Or.inl ⟨rfl, ?_⟩
      dsimp only [BarrierThread.go]
      split
      · rfl
      · split <;> rfl
  | storeCount _ _ | loop | lastWaiters _ | dropCount _ | addFinished _ =>
      cases hrun
      refine Or.inl ⟨rfl, ?_⟩
      dsimp only [BarrierThread.go, BarrierThread.returned]
      split <;> rfl
  | _ =>
      cases hrun
      exact Or.inl ⟨rfl, rfl⟩

omit [Fintype T] [DecidableEq T] in
theorem BarrierPoint.stage_roused (point : BarrierPoint T) : point.roused.stage = point.stage := by
  cases point with
  | waitLock point => cases point <;> rfl
  | waitFinished o point => cases point <;> rfl
  | waitLast o point => cases point <;> rfl
  | _ => rfl

omit [Fintype T] [DecidableEq T] in
theorem BarrierPoint.inLock_roused (point : BarrierPoint T) :
    point.roused.inLock = point.inLock := by
  cases point with
  | waitLock point => cases point <;> rfl
  | waitFinished o point => cases point <;> rfl
  | waitLast o point => cases point <;> rfl
  | _ => rfl

omit [Fintype T] [DecidableEq T] in
theorem BarrierThread.member_roused (c : BarrierThread T) :
    (c.go c.point.roused).member = c.member := by
  unfold BarrierThread.member BarrierThread.go
  rw [BarrierPoint.stage_roused]

omit [Fintype T] in
/-- What a thread does that wakes others. -/
theorem roundsOf_wakes {limit : Nat} {s : BarrierState T} {t : T}
    {wake : Wake} {c : BarrierThread T}
    (hwakes : (pthreadBarrier limit).wakes (s.control t) = some (wake, c)) :
    roundsOf ⟨s.memory, Function.update s.control t c⟩ = roundsOf s ∨
      Rounds.Step limit (roundsOf s) t (roundsOf ⟨s.memory, Function.update s.control t c⟩) := by
  unfold pthreadBarrier at hwakes
  dsimp only at hwakes
  cases hpoint : (s.control t).point with
  | wakeLock role =>
      rw [hpoint] at hwakes
      cases hwakes
      refine Or.inl (roundsOf_quiet rfl rfl ?_)
      unfold BarrierThread.member BarrierThread.go
      rw [hpoint]
      cases role <;> rfl
  | wakeLast o =>
      rw [hpoint] at hwakes
      cases hwakes
      refine Or.inl (roundsOf_quiet rfl rfl ?_)
      unfold BarrierThread.member BarrierThread.go
      rw [hpoint]
      rfl
  | wakeFinished o =>
      rw [hpoint] at hwakes
      cases hwakes
      have hstage : ((roundsOf s).members t).stage = .gone := by
        show (s.control t).point.stage = _
        rw [hpoint]
        rfl
      exact Or.inr (roundsOf_step (.returns hstage) rfl rfl rfl)
  | _ =>
      rw [hpoint] at hwakes
      cases hwakes

omit [Fintype T] in
theorem pthreadBarrier_wakes {limit : Nat} {c c' : BarrierThread T} {wake : Wake}
    (hwakes : (pthreadBarrier limit).wakes c = some (wake, c')) :
    c.point.asleep = false ∧ c.point.inLock = 0 ∧ c'.point.inLock = 0 := by
  obtain ⟨returns, serials, point⟩ := c
  cases point with
  | wakeLock role =>
      cases hwakes
      exact ⟨rfl, rfl, by cases role <;> rfl⟩
  | wakeLast o =>
      cases hwakes
      exact ⟨rfl, rfl, rfl⟩
  | wakeFinished o =>
      cases hwakes
      exact ⟨rfl, rfl, rfl⟩
  | _ => cases hwakes

omit [Fintype T] [DecidableEq T] in
theorem BarrierPoint.asleep_of_hears [DecidableEq T] {point point' : BarrierPoint T}
    (hhears : point.hears point' = true) : point'.asleep = true := by
  unfold BarrierPoint.hears at hhears
  split at hhears
  · rfl
  · rfl
  · rfl
  · cases hhears

omit [Fintype T] in
theorem roundsOf_rouseAll {limit : Nat} {s : BarrierState T}
    (waker : BarrierThread T) :
    roundsOf ⟨s.memory, rouseAll (pthreadBarrier limit) waker s.control⟩ = roundsOf s := by
  unfold roundsOf
  congr 1
  funext u
  unfold rouseAll
  dsimp only [Function.comp_apply]
  split
  · exact BarrierThread.member_roused _
  · rfl

omit [Fintype T] in
/-- The thread that wakes all others does not wake itself. -/
theorem rouseAll_self {limit : Nat} {control : T → BarrierThread T} {t : T}
    (hawake : (control t).point.asleep = false) :
    rouseAll (pthreadBarrier limit) (control t) control t = control t := by
  unfold rouseAll
  rw [if_neg]
  intro hhears
  rw [BarrierPoint.asleep_of_hears hhears] at hawake
  cases hawake

/-- Each step of the code is a step of the rounds, or none. -/
theorem LockHeld.step_refines {limit : Nat} {s s' : BarrierState T} {t : T} (h : LockHeld s)
    (hstep : FutexThreads.Step (pthreadBarrier limit) s t s') :
    roundsOf s' = roundsOf s ∨ Rounds.Step limit (roundsOf s) t (roundsOf s') := by
  cases hstep with
  | run hrun => exact h.run_refines hrun
  | call hcall =>
      obtain ⟨hpoint, rfl⟩ := hcall
      refine Or.inl (roundsOf_quiet rfl rfl ?_)
      unfold BarrierThread.member BarrierThread.go
      rw [hpoint]
      rfl
  | stir hasleep hc =>
      obtain rfl := hc.elim id id
      exact Or.inl (roundsOf_quiet rfl rfl (BarrierThread.member_roused _))
  | refuse hrefused =>
      refine Or.inl (roundsOf_quiet rfl rfl ?_)
      unfold BarrierThread.member
      rcases BarrierThread.refused_cases hrefused with
        ⟨hpoint, rfl⟩ | ⟨o, ⟨hpoint, rfl⟩ | ⟨hpoint, rfl⟩⟩ <;> rw [hpoint] <;> rfl
  | @wakeOne sleeper c hwakes hne hasleep =>
      have hrouse : roundsOf ⟨s.memory, Function.update s.control sleeper
          ((s.control sleeper).go (s.control sleeper).point.roused)⟩ = roundsOf s :=
        roundsOf_quiet rfl rfl (BarrierThread.member_roused _)
      rw [← Function.update_of_ne hne.symm
        ((s.control sleeper).go (s.control sleeper).point.roused) s.control] at hwakes
      rw [← hrouse]
      exact roundsOf_wakes (s := ⟨s.memory, Function.update s.control sleeper _⟩) hwakes
  | wakeNone hwakes hnone => exact roundsOf_wakes hwakes
  | wakeAll hwakes =>
      have hself : rouseAll (pthreadBarrier limit) (s.control t) s.control t = s.control t :=
        rouseAll_self (pthreadBarrier_wakes hwakes).1
      rw [← hself] at hwakes
      rw [← @roundsOf_rouseAll _ _ limit s (s.control t)]
      exact roundsOf_wakes
        (s := ⟨s.memory, rouseAll (pthreadBarrier limit) (s.control t) s.control⟩) hwakes

/-- A step of a thread that neither takes the lock nor gives it back. -/
theorem LockHeld.move {s : BarrierState T} (h : LockHeld s) {t : T}
    {c : BarrierThread T} (hsame : c.point.inLock = (s.control t).point.inLock) :
    LockHeld ⟨s.memory, Function.update s.control t c⟩ := by
  refine ⟨h.1, ?_⟩
  have hupdate := total_update (fun c : BarrierThread T => c.point.inLock) s.control t c
  rw [hsame] at hupdate
  exact (Nat.add_right_cancel hupdate).trans h.2

theorem LockHeld.step {limit : Nat} {s s' : BarrierState T} {t : T} (h : LockHeld s)
    (hstep : FutexThreads.Step (pthreadBarrier limit) s t s') : LockHeld s' := by
  cases hstep with
  | @run m c hrun =>
      have hupdate := total_update (fun c : BarrierThread T => c.point.inLock) s.control t c
      obtain ⟨hle, htotal⟩ := h
      show m.lock ≤ 1 ∧ total (fun c : BarrierThread T => c.point.inLock)
        (Function.update s.control t c) = m.lock
      rcases BarrierThread.run_lock hrun with ⟨hlock, hsame⟩ | ⟨hlock, hold, hnew⟩ |
        ⟨hlock, hold, hnew⟩ <;> omega
  | call hcall =>
      obtain ⟨hpoint, rfl⟩ := hcall
      exact h.move (by rw [hpoint]; rfl)
  | stir hasleep hc =>
      obtain rfl := hc.elim id id
      exact h.move (BarrierPoint.inLock_roused _)
  | refuse hrefused =>
      refine h.move ?_
      rcases BarrierThread.refused_cases hrefused with
        ⟨hpoint, rfl⟩ | ⟨o, ⟨hpoint, rfl⟩ | ⟨hpoint, rfl⟩⟩ <;> rw [hpoint] <;> rfl
  | @wakeOne sleeper c hwakes hne hasleep =>
      have hrouse : LockHeld ⟨s.memory, Function.update s.control sleeper
          ((s.control sleeper).go (s.control sleeper).point.roused)⟩ :=
        h.move (BarrierPoint.inLock_roused _)
      obtain ⟨-, hold, hnew⟩ := pthreadBarrier_wakes hwakes
      refine hrouse.move (t := t) ?_
      dsimp only
      rw [Function.update_of_ne hne.symm, hold, hnew]
  | wakeNone hwakes hnone =>
      obtain ⟨-, hold, hnew⟩ := pthreadBarrier_wakes hwakes
      exact h.move (by rw [hold, hnew])
  | wakeAll hwakes =>
      obtain ⟨hawake, hold, hnew⟩ := pthreadBarrier_wakes hwakes
      have hrouse : LockHeld ⟨s.memory, rouseAll (pthreadBarrier limit) (s.control t) s.control⟩ :=
        ⟨h.1, (total_rouseAll (fun c _ => BarrierPoint.inLock_roused c.point) s.control).trans h.2⟩
      refine hrouse.move (t := t) ?_
      dsimp only
      rw [rouseAll_self hawake, hold, hnew]

/-- What holds of the code and of its rounds. -/
structure BarrierInv (limit : Nat) (s : BarrierState T) : Prop where
  held : LockHeld s
  rounds : Rounds.Inv limit (roundsOf s)

theorem BarrierInv.step {limit : Nat} {s s' : BarrierState T} {t : T}
    (hlimit : 0 < limit) (hbound : limit < 0x100000000) (h : BarrierInv limit s)
    (hstep : FutexThreads.Step (pthreadBarrier limit) s t s') : BarrierInv limit s' where
  held := h.held.step hstep
  rounds := by
    rcases h.held.step_refines hstep with hquiet | hrounds
    · rw [hquiet]
      exact h.rounds
    · exact h.rounds.step hlimit hbound hrounds

theorem barrierInit_reaches {limit : Nat} {s : BarrierState T} {labels : List T}
    (hlimit : 0 < limit) (hbound : limit < 0x100000000)
    (hrun : Run (FutexThreads.Step (pthreadBarrier limit)) barrierInit labels s) :
    BarrierInv limit s :=
  hrun.preserves (fun h hstep => h.step hlimit hbound hstep)
    ⟨barrierInit_held, Rounds.start_inv limit⟩

omit [Fintype T] [DecidableEq T] in
theorem BarrierPoint.arrived_eq (point : BarrierPoint T) : point.arrived = point.stage.inside := by
  cases point with
  | unlock role | readWaiters role | wakeLock role => cases role <;> rfl
  | waitLast o point => cases point <;> rfl
  | _ => rfl

omit [Fintype T] [DecidableEq T] in
theorem BarrierPoint.uses_eq (point : BarrierPoint T) : point.uses = point.stage.frame := by
  cases point with
  | unlock role | readWaiters role | wakeLock role => cases role <;> rfl
  | waitLast o point => cases point <;> rfl
  | _ => rfl

omit [Fintype T] [DecidableEq T] in
theorem BarrierPoint.owns_of_owning {point : BarrierPoint T} (howning : point.stage.owning = 1) :
    point.owns = true := by
  cases point with
  | unlock role | readWaiters role | wakeLock role => cases role <;> first | rfl | cases howning
  | waitLast o point => cases point <;> cases howning
  | _ => first | rfl | cases howning

omit [DecidableEq T] in
theorem total_arrived (s : BarrierState T) :
    total (fun c => c.point.arrived) s.control =
      Rounds.sumOf Rounds.Stage.inside (roundsOf s).members :=
  Finset.sum_congr rfl fun t _ => BarrierPoint.arrived_eq (s.control t).point

/-- An instance that a thread has still to read or to write, and one that the next thread finds,
is in the frame of a call that has not returned. -/
theorem pthreadBarrier_frames {limit : Nat} {s : BarrierState T} {labels : List T}
    (hlimit : 0 < limit) (hbound : limit < 0x80000000)
    (hrun : Run (FutexThreads.Step (pthreadBarrier limit)) barrierInit labels s) {o : T} :
    (s.memory.inst = some o → (s.control o).point.owns = true) ∧
      ∀ t, (s.control t).point.uses = some o → (s.control o).point.owns = true ∧ t ≠ o := by
  have h := barrierInit_reaches hlimit (by omega) hrun
  refine ⟨fun hinst => BarrierPoint.owns_of_owning (h.rounds.owning_of_inst hinst), ?_⟩
  intro t huses
  rw [BarrierPoint.uses_eq] at huses
  obtain ⟨howning, hne⟩ := h.rounds.member huses
  exact ⟨BarrierPoint.owns_of_owning howning, hne⟩

namespace BarrierWitness

/-- The first thread waits for the second. -/
def schedule : List (Move (BarrierThread Caller) Caller) :=
  [.call .first ⟨0, 0, .swapLock⟩, .alone .first 5, .call .second ⟨0, 0, .swapLock⟩]

/-- Both have returned. -/
def passed : Option (BarrierState Caller) :=
  replay (pthreadBarrier 1) barrierInit (schedule ++ [.alone .second 11, .alone .first 3])

/-- The second is about to say that it is the last. -/
def joined : Option (BarrierState Caller) :=
  replay (pthreadBarrier 1) barrierInit (schedule ++ [.alone .second 7])

theorem joined_frames : ∃ s, joined = some s ∧ (s.control .second).point.uses = some .first ∧
    (s.control .first).point.owns = true := by
  obtain ⟨s, hs⟩ := Option.isSome_iff_exists.mp (show joined.isSome = true by decide +kernel)
  obtain ⟨labels, hrun⟩ := replay_run hs
  have huses : ∀ s ∈ joined, (s.control .second).point.uses = some .first := by decide +kernel
  exact ⟨s, hs, huses s hs,
    ((pthreadBarrier_frames (by decide) (by decide) hrun).2 .second (huses s hs)).1⟩

end BarrierWitness

end Sync

end WasixLibc
