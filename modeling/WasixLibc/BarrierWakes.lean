/-
No thread is left asleep in a barrier.

A thread may sleep in three queues: for the lock of the barrier, for the last thread of
its round, and, as the owner of the instance, for the others to be done with it.
-/
import WasixLibc.BarrierFrames
import WasixLibc.WaitQueue

namespace WasixLibc

namespace Sync

open FutexThreads

variable {T : Type}

/-- One of those in `_b_waiters`. -/
def BarrierThread.lockCounted (c : BarrierThread T) : Nat :=
  match c.point with
  | .waitLock point => point.counted
  | _ => 0

def BarrierThread.lockSleeping (c : BarrierThread T) : Nat :=
  match c.point with
  | .waitLock .asleep => 1
  | _ => 0

/-- The thread will try to take the lock, or look for who waits for it. -/
def BarrierThread.lockAttending (c : BarrierThread T) : Nat :=
  match c.point with
  | .waitLock .asleep => 0
  | .swapLock | .waitLock _ | .readWaiters _ | .wakeLock _ => 1
  | _ => 0

/-- The instance for which an owner waits. -/
def BarrierThread.waitsFor (c : BarrierThread T) : Option T :=
  match c.point with
  | .waitFinished o _ => some o
  | _ => none

section

variable [DecidableEq T]

/-- One of those in `waiters` of the instance. -/
def BarrierThread.lastCounted (o : T) (c : BarrierThread T) : Nat :=
  match c.point with
  | .waitLast o' point => if o' = o then point.counted else 0
  | _ => 0

def BarrierThread.lastSleeping (o : T) (c : BarrierThread T) : Nat :=
  match c.point with
  | .waitLast o' .asleep => if o' = o then 1 else 0
  | _ => 0

def BarrierThread.lastAttending (o : T) (c : BarrierThread T) : Nat :=
  match c.point with
  | .lastWaiters o' | .wakeLast o' => if o' = o then 1 else 0
  | _ => 0

def BarrierThread.finishedSleeping (o : T) (c : BarrierThread T) : Nat :=
  match c.point with
  | .waitFinished o' .asleep => if o' = o then 1 else 0
  | _ => 0

def BarrierThread.finishedAttending (o : T) (c : BarrierThread T) : Nat :=
  match c.point with
  | .wakeFinished o' => if o' = o then 1 else 0
  | _ => 0

variable [Fintype T]

abbrev LockQueue (m : BarrierMemory T) (control : T → BarrierThread T) : Prop :=
  CountedQueue BarrierThread.lockCounted BarrierThread.lockSleeping BarrierThread.lockAttending
    (m.lock ≠ 0) m.waiters control

abbrev LastQueue (o : T) (m : BarrierMemory T) (control : T → BarrierThread T) : Prop :=
  CountedQueue (BarrierThread.lastCounted o) (BarrierThread.lastSleeping o)
    (BarrierThread.lastAttending o) ((m.frames o).last = 0) (m.frames o).waiters control

abbrev FinishedQueue (o : T) (m : BarrierMemory T) (control : T → BarrierThread T) : Prop :=
  Attended (BarrierThread.finishedSleeping o) (BarrierThread.finishedAttending o)
    ((m.frames o).finished = 1) control

/-- The queues of a barrier.  An owner waits for its own instance. -/
structure BarrierWaits (s : BarrierState T) : Prop where
  lock : LockQueue s.memory s.control
  last : ∀ o, LastQueue o s.memory s.control
  finished : ∀ o, FinishedQueue o s.memory s.control
  own : ∀ t o, (s.control t).waitsFor = some o → o = t

theorem barrierInit_waits : BarrierWaits (barrierInit : BarrierState T) where
  lock := ⟨by simp [barrierInit, total, BarrierThread.lockCounted],
    Or.inr (Or.inl (by simp [barrierInit, total, BarrierThread.lockSleeping]))⟩
  last o := ⟨by simp [barrierInit, total, BarrierThread.lastCounted], Or.inl rfl⟩
  finished o := Or.inr (Or.inl (by simp [barrierInit, total, BarrierThread.finishedSleeping]))
  own t o hwaits := by cases hwaits

end

theorem BarrierThread.lockCounted_le (c : BarrierThread T) : c.lockCounted ≤ 1 := by
  obtain ⟨returns, serials, point⟩ := c
  cases point with
  | waitLock point => cases point <;> simp [lockCounted]
  | _ => simp [lockCounted]

theorem BarrierThread.lockSleeping_le (c : BarrierThread T) : c.lockSleeping ≤ c.lockCounted := by
  obtain ⟨returns, serials, point⟩ := c
  cases point with
  | waitLock point => cases point <;> simp [lockSleeping, lockCounted]
  | _ => simp [lockSleeping]

variable [DecidableEq T]

theorem BarrierThread.lastCounted_le (o : T) (c : BarrierThread T) : c.lastCounted o ≤ 1 := by
  obtain ⟨returns, serials, point⟩ := c
  cases point with
  | waitLast o' point => cases point <;> simp [lastCounted] <;> split <;> simp
  | _ => simp [lastCounted]

theorem BarrierThread.lastSleeping_le (o : T) (c : BarrierThread T) :
    c.lastSleeping o ≤ c.lastCounted o := by
  obtain ⟨returns, serials, point⟩ := c
  cases point with
  | waitLast o' point => cases point <;> simp [lastSleeping, lastCounted]
  | _ => simp [lastSleeping]

section

variable {limit : Nat} {t : T} {m m' : BarrierMemory T} {c c' : BarrierThread T}

/-- What an access does to the queue for the lock. -/
theorem BarrierThread.run_lockQueue (hrun : c.run limit t m = some (m', c')) :
    Counts m.waiters c.lockCounted m'.waiters c'.lockCounted ∧
      Minds lockSleeping lockAttending (m.lock ≠ 0) (m'.lock ≠ 0) m.waiters c c' := by
  obtain ⟨returns, serials, point⟩ := c
  cases point with
  | outside | wakeLock role | wakeLast o | wakeFinished o => cases hrun
  | swapLock =>
      cases hrun
      split <;> exact ⟨Or.inl ⟨rfl, rfl⟩, Or.inl Nat.one_ne_zero⟩
  | waitLock point =>
      obtain ⟨⟨waiters, c⟩, hturn, hnext⟩ := Option.map_eq_some_iff.mp hrun
      cases hnext
      refine ⟨CountedWait.turn_counts (fun _ => rfl) rfl hturn, ?_⟩
      obtain ⟨-, ⟨rfl, -⟩ | ⟨next, rfl, -, hasleep⟩⟩ := CountedWait.turn_cases hturn
      · exact Or.inr (Or.inl Nat.one_pos)
      · cases next with
        | asleep =>
            have hlock : m.lock = 1 := of_decide_eq_true (hasleep (Or.inl rfl)).1
            exact Or.inl (by rw [hlock]; decide)
        | _ => exact Or.inr (Or.inl Nat.one_pos)
  | unlock role =>
      cases hrun
      exact ⟨Or.inl ⟨rfl, rfl⟩, Or.inr (Or.inl Nat.one_pos)⟩
  | readWaiters role =>
      cases hrun
      by_cases hwaiters : m.waiters = 0
      · rw [if_neg (not_not_intro hwaiters)]
        refine ⟨Or.inl ⟨rfl, by cases role <;> rfl⟩,
          Or.inr (Or.inr ⟨by cases role <;> rfl, Or.inl hwaiters⟩)⟩
      · rw [if_pos hwaiters]
        exact ⟨Or.inl ⟨rfl, rfl⟩, Or.inr (Or.inl Nat.one_pos)⟩
  | waitFinished o point =>
      obtain ⟨c, hturn, hnext⟩ := Option.map_eq_some_iff.mp hrun
      cases hnext
      obtain ⟨-, rfl | ⟨next, rfl, -⟩⟩ := WaitPoint.turn_cases hturn
      · exact ⟨Or.inl ⟨rfl, rfl⟩, .aside rfl rfl⟩
      · exact ⟨Or.inl ⟨rfl, rfl⟩, .aside rfl rfl⟩
  | waitLast o point =>
      obtain ⟨⟨waiters, c⟩, hturn, hnext⟩ := Option.map_eq_some_iff.mp hrun
      cases hnext
      obtain ⟨-, ⟨rfl, -⟩ | ⟨next, rfl, -⟩⟩ := CountedWait.turn_cases hturn
      · exact ⟨Or.inl ⟨rfl, rfl⟩, .aside rfl rfl⟩
      · exact ⟨Or.inl ⟨rfl, rfl⟩, .aside rfl rfl⟩
  | readInst =>
      cases hrun
      cases m.inst <;> exact ⟨Or.inl ⟨rfl, rfl⟩, .aside rfl rfl⟩
  | spin spins =>
      cases hrun
      split
      · exact ⟨Or.inl ⟨rfl, rfl⟩, .aside rfl rfl⟩
      · split <;> exact ⟨Or.inl ⟨rfl, rfl⟩, .aside rfl rfl⟩
  | storeCount _ _ | loop | lastWaiters _ | dropCount _ | addFinished _ =>
      cases hrun
      split <;> exact ⟨Or.inl ⟨rfl, rfl⟩, .aside rfl rfl⟩
  | _ =>
      cases hrun
      exact ⟨Or.inl ⟨rfl, rfl⟩, .aside rfl rfl⟩

/-- A change of a frame elsewhere than in what its queue depends on. -/
theorem setFrame_lastQueue {o o' : T} {f : Instance} (hlast : f.last = (m.frames o').last)
    (hwaiters : f.waiters = (m.frames o').waiters) :
    ((m.setFrame o' f).frames o).last = (m.frames o).last ∧
      ((m.setFrame o' f).frames o).waiters = (m.frames o).waiters := by
  unfold BarrierMemory.setFrame
  dsimp only
  by_cases ho : o = o'
  · subst ho
    rw [Function.update_self]
    exact ⟨hlast, hwaiters⟩
  · rw [Function.update_of_ne ho]
    exact ⟨rfl, rfl⟩

/-- What an access does to the queue for the last thread, in all but the first of a round. -/
theorem BarrierThread.run_lastQueue {o : T} (hrun : c.run limit t m = some (m', c'))
    (hset : c.point ≠ .setInst) :
    Counts (m.frames o).waiters (c.lastCounted o) (m'.frames o).waiters (c'.lastCounted o) ∧
      Minds (lastSleeping o) (lastAttending o) ((m.frames o).last = 0) ((m'.frames o).last = 0)
        (m.frames o).waiters c c' := by
  -- the queue is as it was
  have hsame : (m'.frames o).last = (m.frames o).last ∧
        (m'.frames o).waiters = (m.frames o).waiters → c.lastCounted o = 0 →
      c.lastAttending o = 0 → c'.lastCounted o = 0 →
      Counts (m.frames o).waiters (c.lastCounted o) (m'.frames o).waiters (c'.lastCounted o) ∧
        Minds (lastSleeping o) (lastAttending o) ((m.frames o).last = 0) ((m'.frames o).last = 0)
          (m.frames o).waiters c c' := by
    rintro ⟨hlast, hwaiters⟩ hcounted hidle hcounted'
    have hle := c'.lastSleeping_le o
    rw [hlast, hwaiters, hcounted, hcounted']
    exact ⟨.refl _ _, .aside (by omega) hidle⟩
  obtain ⟨returns, serials, point⟩ := c
  cases point with
  | outside | wakeLock role | wakeLast o | wakeFinished o => cases hrun
  | setInst => exact absurd rfl hset
  | setLast o' =>
      cases hrun
      by_cases ho : o' = o
      · subst ho
        refine ⟨Or.inl ⟨?_, rfl⟩, Or.inr (Or.inl ?_)⟩
        · simp [BarrierMemory.setFrame]
        · simp [lastAttending, BarrierThread.go]
      · have hframe : (m.setFrame o' { m.frames o' with last := 1 }).frames o = m.frames o :=
          Function.update_of_ne (Ne.symm ho) _ _
        exact hsame (by rw [hframe]; exact ⟨rfl, rfl⟩) rfl rfl rfl
  | lastWaiters o' =>
      cases hrun
      by_cases ho : o' = o
      · subst ho
        by_cases hwaiters : (m.frames o').waiters = 0
        · rw [if_neg (not_not_intro hwaiters)]
          exact ⟨Or.inl ⟨rfl, rfl⟩, Or.inr (Or.inr ⟨rfl, Or.inl hwaiters⟩)⟩
        · rw [if_pos hwaiters]
          exact ⟨Or.inl ⟨rfl, rfl⟩, Or.inr (Or.inl (by simp [lastAttending, BarrierThread.go]))⟩
      · refine hsame ⟨rfl, rfl⟩ rfl (if_neg ho) ?_
        split <;> rfl
  | waitLast o' point =>
      obtain ⟨⟨waiters, c⟩, hturn, hnext⟩ := Option.map_eq_some_iff.mp hrun
      cases hnext
      by_cases ho : o' = o
      · subst ho
        have hframe : (m.setFrame o' { m.frames o' with waiters }).frames o' =
            { m.frames o' with waiters } := Function.update_self ..
        rw [hframe]
        have hstay : ∀ next : CountedWait,
            lastCounted o' (BarrierThread.go ⟨returns, serials, .waitLast o' point⟩
              (.waitLast o' next)) = next.counted := fun _ => if_pos rfl
        have hcounts := CountedWait.turn_counts hstay rfl hturn
        refine ⟨by simpa [lastCounted] using hcounts, ?_⟩
        obtain ⟨-, ⟨rfl, -⟩ | ⟨next, rfl, -, hasleep⟩⟩ := CountedWait.turn_cases hturn
        · exact .aside rfl rfl
        · cases next with
          | asleep => exact Or.inl (of_decide_eq_true (hasleep (Or.inl rfl)).1)
          | _ => exact .aside rfl rfl
      · have hframe : (m.setFrame o' { m.frames o' with waiters }).frames o = m.frames o :=
          Function.update_of_ne (Ne.symm ho) _ _
        refine hsame (by rw [hframe]; exact ⟨rfl, rfl⟩) (if_neg ho) rfl ?_
        obtain ⟨-, ⟨rfl, -⟩ | ⟨next, rfl, -⟩⟩ := CountedWait.turn_cases hturn
        · rfl
        · exact if_neg ho
  | waitLock point =>
      obtain ⟨⟨waiters, c⟩, hturn, hnext⟩ := Option.map_eq_some_iff.mp hrun
      cases hnext
      obtain ⟨-, ⟨rfl, -⟩ | ⟨next, rfl, -⟩⟩ := CountedWait.turn_cases hturn
      · exact hsame ⟨rfl, rfl⟩ rfl rfl rfl
      · exact hsame ⟨rfl, rfl⟩ rfl rfl rfl
  | waitFinished o point =>
      obtain ⟨c, hturn, hnext⟩ := Option.map_eq_some_iff.mp hrun
      cases hnext
      obtain ⟨-, rfl | ⟨next, rfl, -⟩⟩ := WaitPoint.turn_cases hturn
      · exact hsame ⟨rfl, rfl⟩ rfl rfl rfl
      · exact hsame ⟨rfl, rfl⟩ rfl rfl rfl
  | swapLock | loop =>
      cases hrun
      refine hsame ⟨rfl, rfl⟩ rfl rfl ?_
      split <;> rfl
  | readInst =>
      cases hrun
      refine hsame ⟨rfl, rfl⟩ rfl rfl ?_
      cases m.inst <;> rfl
  | readWaiters role =>
      cases hrun
      refine hsame ⟨rfl, rfl⟩ rfl rfl ?_
      split
      · rfl
      · cases role <;> simp [lastCounted, BarrierThread.go, BarrierRole.next]
  | spin spins =>
      cases hrun
      refine hsame ⟨rfl, rfl⟩ rfl rfl ?_
      split
      · rfl
      · split <;> rfl
  | finish =>
      cases hrun
      exact hsame (setFrame_lastQueue rfl rfl) rfl rfl rfl
  | storeCount _ _ | dropCount _ | addFinished _ =>
      cases hrun
      refine hsame (setFrame_lastQueue rfl rfl) rfl rfl ?_
      split <;> rfl
  | _ =>
      cases hrun
      exact hsame ⟨rfl, rfl⟩ rfl rfl rfl

/-- A change of a frame that is not the one of the queue, or not where the queue looks. -/
theorem setFrame_finished {o o' : T} {f : Instance}
    (hfinished : o' = o → f.finished = (m.frames o).finished) :
    ((m.setFrame o' f).frames o).finished = (m.frames o).finished := by
  unfold BarrierMemory.setFrame
  dsimp only
  by_cases ho : o = o'
  · subst ho
    rw [Function.update_self]
    exact hfinished rfl
  · rw [Function.update_of_ne ho]

/-- What an access does to the queue of an owner; the owner itself does not sleep then. -/
theorem BarrierThread.run_finishedQueue {o : T} (hrun : c.run limit t m = some (m', c')) :
    (m'.frames o).finished = 1 ∨ 0 < c'.finishedAttending o ∨ c'.finishedSleeping o = 0 ∧
      (t = o ∧ c.finishedSleeping o = 0 ∨
        (m'.frames o).finished = (m.frames o).finished ∧ c.finishedAttending o = 0) := by
  -- the frame is as it was
  have hsame : (m'.frames o).finished = (m.frames o).finished → c.finishedAttending o = 0 →
      c'.finishedSleeping o = 0 → (m'.frames o).finished = 1 ∨ 0 < c'.finishedAttending o ∨
        c'.finishedSleeping o = 0 ∧ (t = o ∧ c.finishedSleeping o = 0 ∨
          (m'.frames o).finished = (m.frames o).finished ∧ c.finishedAttending o = 0) :=
    fun hfinished hidle hawake => Or.inr (Or.inr ⟨hawake, Or.inr ⟨hfinished, hidle⟩⟩)
  obtain ⟨returns, serials, point⟩ := c
  cases point with
  | outside | wakeLock role | wakeLast o | wakeFinished o => cases hrun
  | setInst =>
      cases hrun
      by_cases ho : t = o
      · exact Or.inr (Or.inr ⟨rfl, Or.inl ⟨ho, rfl⟩⟩)
      · refine hsame ?_ rfl rfl
        exact congrArg Instance.finished (Function.update_of_ne (Ne.symm ho) _ _)
  | finish =>
      cases hrun
      by_cases ho : t = o
      · exact Or.inr (Or.inr ⟨rfl, Or.inl ⟨ho, rfl⟩⟩)
      · exact hsame (setFrame_finished fun hsame => absurd hsame ho) rfl rfl
  | addFinished o' =>
      cases hrun
      by_cases ho : o' = o
      · subst ho
        by_cases hfinished : (m.frames o').finished = 0
        · refine Or.inl ?_
          simp [BarrierMemory.setFrame, hfinished]
        · rw [if_pos hfinished]
          exact Or.inr (Or.inl (by simp [finishedAttending, BarrierThread.go]))
      · refine hsame (setFrame_finished fun hsame => absurd hsame ho) rfl ?_
        split <;> rfl
  | waitFinished o' point =>
      obtain ⟨c, hturn, hnext⟩ := Option.map_eq_some_iff.mp hrun
      cases hnext
      obtain ⟨-, rfl | ⟨next, rfl, hasleep⟩⟩ := WaitPoint.turn_cases hturn
      · exact hsame rfl rfl rfl
      · cases next with
        | asleep =>
            by_cases ho : o' = o
            · subst ho
              exact Or.inl (of_decide_eq_true (hasleep (Or.inl rfl)))
            · exact hsame rfl rfl (if_neg ho)
        | _ => exact hsame rfl rfl rfl
  | waitLock point =>
      obtain ⟨⟨waiters, c⟩, hturn, hnext⟩ := Option.map_eq_some_iff.mp hrun
      cases hnext
      obtain ⟨-, ⟨rfl, -⟩ | ⟨next, rfl, -⟩⟩ := CountedWait.turn_cases hturn
      · exact hsame rfl rfl rfl
      · exact hsame rfl rfl rfl
  | waitLast o' point =>
      obtain ⟨⟨waiters, c⟩, hturn, hnext⟩ := Option.map_eq_some_iff.mp hrun
      cases hnext
      have hfinished : ((m.setFrame o' { m.frames o' with waiters }).frames o).finished =
          (m.frames o).finished := setFrame_finished (by rintro rfl; rfl)
      obtain ⟨-, ⟨rfl, -⟩ | ⟨next, rfl, -⟩⟩ := CountedWait.turn_cases hturn
      · exact hsame hfinished rfl rfl
      · exact hsame hfinished rfl rfl
  | readInst =>
      cases hrun
      refine hsame rfl rfl ?_
      cases m.inst <;> rfl
  | readWaiters role =>
      cases hrun
      refine hsame rfl rfl ?_
      split
      · rfl
      · cases role <;> rfl
  | spin spins =>
      cases hrun
      refine hsame rfl rfl ?_
      split
      · rfl
      · split <;> rfl
  | swapLock | loop | lastWaiters _ =>
      cases hrun
      refine hsame rfl rfl ?_
      split <;> rfl
  | storeCount o' _ | dropCount o' =>
      cases hrun
      have hfinished : ∀ count : Nat,
          ((m.setFrame o' { m.frames o' with count }).frames o).finished =
            (m.frames o).finished := fun count => setFrame_finished (by rintro rfl; rfl)
      refine hsame (hfinished _) rfl ?_
      split <;> rfl
  | setLast o' =>
      cases hrun
      exact hsame (setFrame_finished (by rintro rfl; rfl)) rfl rfl
  | _ =>
      cases hrun
      exact hsame rfl rfl rfl

/-- A thread that begins to wait as an owner waits for its own instance. -/
theorem BarrierThread.run_waitsFor (hrun : c.run limit t m = some (m', c')) :
    c'.waitsFor = none ∨ c'.waitsFor = some t ∨ c'.waitsFor = c.waitsFor := by
  obtain ⟨returns, serials, point⟩ := c
  cases point with
  | outside | wakeLock role | wakeLast o | wakeFinished o => cases hrun
  | loop =>
      cases hrun
      split
      · exact Or.inr (Or.inl rfl)
      · exact Or.inl rfl
  | waitFinished o point =>
      obtain ⟨c, hturn, hnext⟩ := Option.map_eq_some_iff.mp hrun
      cases hnext
      obtain ⟨-, rfl | ⟨next, rfl, -⟩⟩ := WaitPoint.turn_cases hturn
      · exact Or.inl rfl
      · exact Or.inr (Or.inr rfl)
  | waitLock point =>
      obtain ⟨⟨waiters, c⟩, hturn, hnext⟩ := Option.map_eq_some_iff.mp hrun
      cases hnext
      obtain ⟨-, ⟨rfl, -⟩ | ⟨next, rfl, -⟩⟩ := CountedWait.turn_cases hturn <;> exact Or.inl rfl
  | waitLast o point =>
      obtain ⟨⟨waiters, c⟩, hturn, hnext⟩ := Option.map_eq_some_iff.mp hrun
      cases hnext
      obtain ⟨-, ⟨rfl, -⟩ | ⟨next, rfl, -⟩⟩ := CountedWait.turn_cases hturn <;> exact Or.inl rfl
  | readInst =>
      cases hrun
      refine Or.inl ?_
      cases m.inst <;> rfl
  | readWaiters role =>
      cases hrun
      refine Or.inl ?_
      split
      · rfl
      · cases role <;> rfl
  | spin spins =>
      cases hrun
      refine Or.inl ?_
      split
      · rfl
      · split <;> rfl
  | swapLock | lastWaiters _ | storeCount _ _ | dropCount _ | addFinished _ =>
      cases hrun
      refine Or.inl ?_
      split <;> rfl
  | _ =>
      cases hrun
      exact Or.inl rfl

end

omit [DecidableEq T] in
theorem BarrierThread.lockSleeping_pos {c : BarrierThread T} (hpos : 0 < c.lockSleeping) :
    c.point = .waitLock .asleep := by
  unfold lockSleeping at hpos
  split at hpos
  · assumption
  · cases hpos

theorem BarrierThread.lastSleeping_pos {o : T} {c : BarrierThread T}
    (hpos : 0 < c.lastSleeping o) : c.point = .waitLast o .asleep := by
  unfold lastSleeping at hpos
  split at hpos
  · split at hpos
    · rename_i ho
      exact ho ▸ ‹_›
    · cases hpos
  · cases hpos

theorem BarrierThread.finishedSleeping_pos {o : T} {c : BarrierThread T}
    (hpos : 0 < c.finishedSleeping o) : c.point = .waitFinished o .asleep := by
  unfold finishedSleeping at hpos
  split at hpos
  · split at hpos
    · rename_i ho
      exact ho ▸ ‹_›
    · cases hpos
  · cases hpos

variable [Fintype T] {limit : Nat} {s : BarrierState T} {t : T}

/-- An owner that is awake leaves nobody asleep in its queue. -/
theorem BarrierWaits.owner_awake (h : BarrierWaits s) {o : T}
    (hawake : (s.control o).finishedSleeping o = 0) :
    total (BarrierThread.finishedSleeping o) s.control = 0 := by
  refine Finset.sum_eq_zero fun t _ => ?_
  by_cases ht : t = o
  · rw [ht]
    exact hawake
  · cases hpoint : (s.control t).point with
    | waitFinished o' point =>
        have hown : o' = t := h.own t o' (by rw [BarrierThread.waitsFor, hpoint])
        rw [BarrierThread.finishedSleeping, hpoint]
        cases point with
        | asleep => exact if_neg fun ho => ht (hown ▸ ho)
        | _ => rfl
    | _ => rw [BarrierThread.finishedSleeping, hpoint]

/-- The frame of a thread that begins a round has no queue. -/
theorem BarrierInv.no_queue (h : BarrierInv limit s) (hpoint : (s.control t).point = .setInst) :
    total (BarrierThread.lastCounted t) s.control = 0 := by
  have hsound := h.rounds.sound t
  unfold Rounds.State.Sound at hsound
  have hstage : ((roundsOf s).members t).stage = .setting := by
    show (s.control t).point.stage = _
    rw [hpoint]
    rfl
  rw [hstage] at hsound
  refine Finset.sum_eq_zero fun u _ => ?_
  cases hu : (s.control u).point with
  | waitLast o point =>
      rw [BarrierThread.lastCounted, hu]
      refine if_neg fun ho => ?_
      subst ho
      have huses : ((roundsOf s).members u).stage.frame = some o := by
        show (s.control u).point.stage.frame = _
        rw [← BarrierPoint.uses_eq, hu]
        rfl
      have howning := (h.rounds.member huses).1
      rw [hstage] at howning
      cases howning
  | _ => rw [BarrierThread.lastCounted, hu]

theorem BarrierWaits.own_update (h : BarrierWaits s) {c : BarrierThread T}
    (hown : ∀ o, c.waitsFor = some o → o = t) (u o : T)
    (hwaits : (Function.update s.control t c u).waitsFor = some o) : o = u := by
  by_cases hu : u = t
  · subst hu
    rw [Function.update_self] at hwaits
    exact hown o hwaits
  · rw [Function.update_of_ne hu] at hwaits
    exact h.own u o hwaits

/-- A new instance has an empty queue. -/
theorem BarrierWaits.setInst (hcard : Fintype.card T < 0x100000000) (h : BarrierWaits s)
    (hnone : total (BarrierThread.lastCounted t) s.control = 0)
    (hpoint : (s.control t).point = .setInst) (o : T) :
    LastQueue o ⟨s.memory.lock, s.memory.waiters, some t,
        Function.update s.memory.frames t ⟨0, 0, 0, 0⟩⟩
      (Function.update s.control t ((s.control t).go (.unlock .owner))) := by
  have hcounted : (s.control t).lastCounted o = 0 := by rw [BarrierThread.lastCounted, hpoint]
  have hidle : (s.control t).lastAttending o = 0 := by rw [BarrierThread.lastAttending, hpoint]
  dsimp only [LastQueue]
  by_cases ho : o = t
  · subst ho
    have hupdate := total_update (BarrierThread.lastCounted o) s.control o
      ((s.control o).go (.unlock .owner))
    rw [hcounted, hnone] at hupdate
    rw [Function.update_self]
    exact ⟨hupdate, Or.inl rfl⟩
  · rw [Function.update_of_ne ho]
    exact (h.last o).step hcard (BarrierThread.lastCounted_le o)
      (Or.inl ⟨rfl, hcounted.symm⟩) (.aside rfl hidle)

/-- An access keeps the queues. -/
theorem BarrierWaits.run (hcard : Fintype.card T < 0x100000000) (h : BarrierWaits s)
    (hinv : BarrierInv limit s) {m : BarrierMemory T} {c : BarrierThread T}
    (hrun : (s.control t).run limit t s.memory = some (m, c)) :
    BarrierWaits ⟨m, Function.update s.control t c⟩ where
  lock := h.lock.access hcard BarrierThread.lockCounted_le BarrierThread.lockSleeping_le
    (BarrierThread.run_lockQueue hrun).1 (BarrierThread.run_lockQueue hrun).2
  last o := by
    by_cases hset : (s.control t).point = .setInst
    · have hqueue := h.setInst hcard (hinv.no_queue hset) hset o
      unfold BarrierThread.run at hrun
      rw [hset] at hrun
      cases hrun
      exact hqueue
    · obtain ⟨hcounts, hminds⟩ := BarrierThread.run_lastQueue (o := o) hrun hset
      exact (h.last o).access hcard (BarrierThread.lastCounted_le o)
        (BarrierThread.lastSleeping_le o) hcounts hminds
  finished o := by
    refine (h.finished o).step ?_
    rcases BarrierThread.run_finishedQueue (o := o) hrun with hfinished | hpos |
      ⟨hawake, ⟨rfl, hself⟩ | ⟨hfinished, hidle⟩⟩
    · exact Or.inl hfinished
    · exact Or.inr (Or.inl hpos)
    · exact Or.inr (Or.inr ⟨hawake, Or.inl (h.owner_awake hself)⟩)
    · rw [hfinished]
      exact .aside hawake hidle
  own := by
    refine h.own_update fun o hwaits => ?_
    rcases BarrierThread.run_waitsFor hrun with hnone | hself | hsame
    · rw [hnone] at hwaits
      cases hwaits
    · rw [hself] at hwaits
      exact (Option.some.inj hwaits).symm
    · exact h.own t o (hsame ▸ hwaits)

/-- A thread that goes on without an access. -/
theorem BarrierWaits.goes (hcard : Fintype.card T < 0x100000000) (h : BarrierWaits s)
    {c : BarrierThread T} (hlockCounted : c.lockCounted = (s.control t).lockCounted)
    (hlock : Keeps BarrierThread.lockSleeping BarrierThread.lockAttending (s.memory.lock ≠ 0)
      (s.memory.lock ≠ 0) s.control t c)
    (hlastCounted : ∀ o, c.lastCounted o = (s.control t).lastCounted o)
    (hlast : ∀ o, Keeps (BarrierThread.lastSleeping o) (BarrierThread.lastAttending o)
      ((s.memory.frames o).last = 0) ((s.memory.frames o).last = 0) s.control t c)
    (hfinished : ∀ o, Keeps (BarrierThread.finishedSleeping o) (BarrierThread.finishedAttending o)
      ((s.memory.frames o).finished = 1) ((s.memory.frames o).finished = 1) s.control t c)
    (hown : c.waitsFor = none ∨ c.waitsFor = (s.control t).waitsFor) :
    BarrierWaits ⟨s.memory, Function.update s.control t c⟩ where
  lock := h.lock.step hcard BarrierThread.lockCounted_le (Or.inl ⟨rfl, hlockCounted⟩) hlock
  last o := (h.last o).step hcard (BarrierThread.lastCounted_le o)
    (Or.inl ⟨rfl, hlastCounted o⟩) (hlast o)
  finished o := (h.finished o).step (hfinished o)
  own := by
    refine h.own_update fun o hwaits => ?_
    rcases hown with hnone | hsame
    · rw [hnone] at hwaits
      cases hwaits
    · exact h.own t o (hsame ▸ hwaits)

theorem BarrierWaits.call (hcard : Fintype.card T < 0x100000000) (h : BarrierWaits s)
    (hpoint : (s.control t).point = .outside) :
    BarrierWaits ⟨s.memory, Function.update s.control t ((s.control t).go .swapLock)⟩ := by
  generalize hc : s.control t = c at hpoint
  obtain ⟨returns, serials, point⟩ := c
  obtain rfl : point = .outside := hpoint
  refine h.goes hcard (by rw [hc]; rfl) (Or.inr (Or.inl Nat.one_pos)) (fun o => by rw [hc]; rfl)
    (fun o => .aside rfl (by rw [hc]; rfl)) (fun o => .aside rfl (by rw [hc]; rfl)) (Or.inl rfl)

/-- A thread that is let go attends to its queue. -/
theorem BarrierWaits.rouse (hcard : Fintype.card T < 0x100000000) (h : BarrierWaits s)
    (hasleep : (s.control t).point.asleep = true) :
    BarrierWaits ⟨s.memory,
      Function.update s.control t ((s.control t).go (s.control t).point.roused)⟩ := by
  generalize hc : s.control t = c at hasleep
  obtain ⟨returns, serials, point⟩ := c
  unfold BarrierPoint.asleep at hasleep
  dsimp only at hasleep
  split at hasleep
  · exact h.goes hcard (by rw [hc]; rfl) (Or.inr (Or.inl Nat.one_pos)) (fun o => by rw [hc]; rfl)
      (fun o => .aside rfl (by rw [hc]; rfl)) (fun o => .aside rfl (by rw [hc]; rfl)) (Or.inl rfl)
  · exact h.goes hcard (by rw [hc]; rfl) (.aside rfl (by rw [hc]; rfl)) (fun o => by rw [hc]; rfl)
      (fun o => .aside rfl (by rw [hc]; rfl)) (fun o => .aside rfl (by rw [hc]; rfl))
      (Or.inr (by rw [hc]; rfl))
  · exact h.goes hcard (by rw [hc]; rfl) (.aside rfl (by rw [hc]; rfl)) (fun o => by rw [hc]; rfl)
      (fun o => .aside rfl (by rw [hc]; rfl)) (fun o => .aside rfl (by rw [hc]; rfl)) (Or.inl rfl)
  · cases hasleep

/-- A thread that the host does not let sleep looks once more. -/
theorem BarrierWaits.refuse (hcard : Fintype.card T < 0x100000000) (h : BarrierWaits s)
    {c : BarrierThread T} (hrefused : (s.control t).refused s.memory = some c) :
    BarrierWaits ⟨s.memory, Function.update s.control t c⟩ := by
  have hcases := BarrierThread.refused_cases hrefused
  generalize hc : s.control t = old at hcases
  obtain ⟨returns, serials, point⟩ := old
  rcases hcases with ⟨hpoint, rfl⟩ | ⟨o, ⟨hpoint, rfl⟩ | ⟨hpoint, rfl⟩⟩
  · obtain rfl : point = .waitLock .entering := hpoint
    exact h.goes hcard (by rw [hc]; rfl) (Or.inr (Or.inl Nat.one_pos)) (fun o => by rw [hc]; rfl)
      (fun o => .aside rfl (by rw [hc]; rfl)) (fun o => .aside rfl (by rw [hc]; rfl)) (Or.inl rfl)
  · obtain rfl : point = .waitFinished o .entering := hpoint
    exact h.goes hcard (by rw [hc]; rfl) (.aside rfl (by rw [hc]; rfl)) (fun o => by rw [hc]; rfl)
      (fun o => .aside rfl (by rw [hc]; rfl)) (fun o => .aside rfl (by rw [hc]; rfl))
      (Or.inr (by rw [hc]; rfl))
  · obtain rfl : point = .waitLast o .entering := hpoint
    exact h.goes hcard (by rw [hc]; rfl) (.aside rfl (by rw [hc]; rfl)) (fun o => by rw [hc]; rfl)
      (fun o => .aside rfl (by rw [hc]; rfl)) (fun o => .aside rfl (by rw [hc]; rfl)) (Or.inl rfl)

/-- A thread that has woken whom it had to wake goes on. -/
theorem BarrierWaits.wakes (hcard : Fintype.card T < 0x100000000) (h : BarrierWaits s) {wake : Wake}
    {c : BarrierThread T} (hwakes : (pthreadBarrier limit).wakes (s.control t) = some (wake, c))
    (hlock : ∀ role, (s.control t).point = .wakeLock role →
      total BarrierThread.lockSleeping s.control = 0 ∨
        ∃ u, u ≠ t ∧ 0 < (s.control u).lockAttending)
    (hlast : ∀ o, (s.control t).point = .wakeLast o →
      total (BarrierThread.lastSleeping o) s.control = 0)
    (hfinished : ∀ o, (s.control t).point = .wakeFinished o →
      total (BarrierThread.finishedSleeping o) s.control = 0) :
    BarrierWaits ⟨s.memory, Function.update s.control t c⟩ := by
  generalize hc : s.control t = old at hwakes hlock hlast hfinished
  obtain ⟨returns, serials, point⟩ := old
  cases point with
  | wakeLock role =>
      cases hwakes
      have hidle :
          (BarrierThread.go ⟨returns, serials, .wakeLock role⟩ role.next).lockSleeping = 0 :=
        by cases role <;> rfl
      refine h.goes hcard (by rw [hc]; cases role <;> rfl) (Or.inr (Or.inr ⟨hidle, ?_⟩))
        (fun o => ?_) (fun o => .aside ?_ (by rw [hc]; rfl))
        (fun o => .aside (by cases role <;> rfl) (by rw [hc]; rfl)) (Or.inl (by cases role <;> rfl))
      · rcases hlock role rfl with hnone | hother
        · exact Or.inl hnone
        · exact Or.inr (Or.inl hother)
      · rw [hc]
        cases role <;> simp [BarrierThread.lastCounted, BarrierThread.go, BarrierRole.next]
      · cases role <;> rfl
  | wakeLast o =>
      cases hwakes
      refine h.goes hcard (by rw [hc]; rfl) (.aside rfl (by rw [hc]; rfl))
        (fun o => by rw [hc]; rfl)
        (fun o' => ?_) (fun o => .aside rfl (by rw [hc]; rfl)) (Or.inl rfl)
      by_cases ho : o = o'
      · subst ho
        exact Or.inr (Or.inr ⟨rfl, Or.inl (hlast o rfl)⟩)
      · exact .aside rfl (by rw [hc]; exact if_neg ho)
  | wakeFinished o =>
      cases hwakes
      refine h.goes hcard (by rw [hc]; rfl) (.aside rfl (by rw [hc]; rfl))
        (fun o => by rw [hc]; rfl)
        (fun o => .aside rfl (by rw [hc]; rfl)) (fun o' => ?_) (Or.inl rfl)
      by_cases ho : o = o'
      · subst ho
        exact Or.inr (Or.inr ⟨rfl, Or.inl (hfinished o rfl)⟩)
      · exact .aside rfl (by rw [hc]; exact if_neg ho)
  | _ => cases hwakes

omit [Fintype T] in
theorem pthreadBarrier_wakes_one {c c' : BarrierThread T} {o : T}
    (hwakes : (pthreadBarrier limit).wakes c = some (.one, c')) : c.point ≠ .wakeLast o := by
  intro hpoint
  unfold pthreadBarrier at hwakes
  dsimp only at hwakes
  rw [hpoint] at hwakes
  cases hwakes

omit [Fintype T] in
theorem pthreadBarrier_wakes_all {c c' : BarrierThread T}
    (hwakes : (pthreadBarrier limit).wakes c = some (.all, c')) : ∃ o, c.point = .wakeLast o := by
  unfold pthreadBarrier at hwakes
  dsimp only at hwakes
  split at hwakes
  · cases hwakes
  · rename_i o hpoint
    exact ⟨o, hpoint⟩
  · cases hwakes
  · cases hwakes

omit [Fintype T] in
/-- Whom a thread wakes in each queue. -/
theorem hears_iff {c c' : BarrierThread T} :
    (pthreadBarrier limit).hears c c' = true ↔
      (∃ role, c.point = .wakeLock role ∧ c'.point = .waitLock .asleep) ∨
        ∃ o, c.point = .wakeLast o ∧ c'.point = .waitLast o .asleep ∨
          c.point = .wakeFinished o ∧ c'.point = .waitFinished o .asleep := by
  show c.point.hears c'.point = true ↔ _
  unfold BarrierPoint.hears
  split
  · rename_i role hpoint hpoint'
    exact iff_of_true rfl (Or.inl ⟨role, hpoint, hpoint'⟩)
  · rename_i o o' hpoint hpoint'
    rw [hpoint, hpoint']
    simp
    exact eq_comm
  · rename_i o o' hpoint hpoint'
    rw [hpoint, hpoint']
    simp
    exact eq_comm
  · rename_i hlock hlast hfinished
    refine iff_of_false Bool.false_ne_true ?_
    rintro (⟨role, hpoint, hpoint'⟩ | ⟨o, ⟨hpoint, hpoint'⟩ | ⟨hpoint, hpoint'⟩⟩)
    · exact hlock role hpoint hpoint'
    · exact hlast o o hpoint hpoint'
    · exact hfinished o o hpoint hpoint'

/-- All that wait for the last thread of a round are woken, and nobody else. -/
theorem BarrierWaits.rouseAll (h : BarrierWaits s) {waker : BarrierThread T} {o : T}
    (hwaker : waker.point = .wakeLast o) :
    BarrierWaits ⟨s.memory, FutexThreads.rouseAll (pthreadBarrier limit) waker s.control⟩ ∧
      total (BarrierThread.lastSleeping o)
        (FutexThreads.rouseAll (pthreadBarrier limit) waker s.control) = 0 := by
  have hheard : ∀ c : BarrierThread T, (pthreadBarrier limit).hears waker c = true →
      c.point = .waitLast o .asleep := by
    intro c hhears
    rcases hears_iff.mp hhears with ⟨role, hpoint, -⟩ | ⟨o', ⟨hpoint, hpoint'⟩ | ⟨hpoint, -⟩⟩
    · rw [hwaker] at hpoint
      cases hpoint
    · rw [hwaker] at hpoint
      cases hpoint
      exact hpoint'
    · rw [hwaker] at hpoint
      cases hpoint
  -- sums in which such a thread is the same awake and asleep
  have hsame : ∀ weight : BarrierThread T → Nat, (∀ returns serials,
      weight ⟨returns, serials, .waitLast o .test⟩ =
        weight ⟨returns, serials, .waitLast o .asleep⟩) →
      total weight (FutexThreads.rouseAll (pthreadBarrier limit) waker s.control) =
        total weight s.control := by
    intro weight hweight
    refine total_rouseAll (fun c hhears => ?_) s.control
    have hpoint := hheard c hhears
    obtain ⟨returns, serials, point⟩ := c
    obtain rfl : point = .waitLast o .asleep := hpoint
    exact hweight returns serials
  have hnone : total (BarrierThread.lastSleeping o)
      (FutexThreads.rouseAll (pthreadBarrier limit) waker s.control) = 0 := by
    refine total_rouseAll_eq_zero (fun c hdeaf => ?_) (fun c hhears => ?_) s.control
    · by_contra hpos
      rw [hears_iff.mpr (Or.inr ⟨o, Or.inl ⟨hwaker, BarrierThread.lastSleeping_pos
        (Nat.pos_of_ne_zero hpos)⟩⟩)] at hdeaf
      cases hdeaf
    · have hpoint := hheard c hhears
      obtain ⟨returns, serials, point⟩ := c
      obtain rfl : point = .waitLast o .asleep := hpoint
      rfl
  refine ⟨⟨⟨?_, ?_⟩, fun o' => ⟨?_, ?_⟩, fun o' => ?_, fun u o' hwaits => ?_⟩, hnone⟩
  · exact (hsame _ fun _ _ => rfl).trans h.lock.count
  · exact h.lock.attended.congr (hsame _ fun _ _ => rfl) (hsame _ fun _ _ => rfl)
  · exact (hsame _ fun _ _ => rfl).trans (h.last o').count
  · by_cases ho : o = o'
    · subst ho
      exact Or.inr (Or.inl hnone)
    · exact (h.last o').attended.congr (hsame _ fun _ _ => (if_neg ho).symm)
        (hsame _ fun _ _ => rfl)
  · exact (h.finished o').congr (hsame _ fun _ _ => rfl) (hsame _ fun _ _ => rfl)
  · refine h.own u o' ?_
    dsimp only at hwaits
    unfold FutexThreads.rouseAll at hwaits
    split at hwaits
    · rename_i hhears
      have hpoint := hheard _ hhears
      unfold BarrierThread.waitsFor pthreadBarrier BarrierThread.go at hwaits
      dsimp only at hwaits
      rw [hpoint] at hwaits
      cases hwaits
    · exact hwaits

theorem BarrierWaits.step (hcard : Fintype.card T < 0x100000000) {s' : BarrierState T}
    (h : BarrierWaits s) (hinv : BarrierInv limit s)
    (hstep : FutexThreads.Step (pthreadBarrier limit) s t s') : BarrierWaits s' := by
  cases hstep with
  | run hrun => exact h.run hcard hinv hrun
  | call hcall =>
      obtain ⟨hpoint, rfl⟩ := hcall
      exact h.call hcard hpoint
  | stir hasleep hc =>
      obtain rfl := hc.elim id id
      exact h.rouse hcard hasleep
  | refuse hrefused => exact h.refuse hcard hrefused
  | @wakeOne sleeper c hwakes hne hhears =>
      have hrouse := h.rouse hcard (BarrierPoint.asleep_of_hears hhears)
      have hself : Function.update s.control sleeper
          ((s.control sleeper).go (s.control sleeper).point.roused) t = s.control t :=
        Function.update_of_ne hne.symm _ _
      have hwakes' := hwakes
      rw [← hself] at hwakes'
      refine hrouse.wakes hcard hwakes' (fun role hpoint => Or.inr ⟨sleeper, hne, ?_⟩)
        (fun o hpoint => ?_) (fun o hpoint => ?_)
      · dsimp only at hpoint ⊢
        rw [hself] at hpoint
        rw [Function.update_self]
        rcases hears_iff.mp hhears with ⟨-, -, hsleeper⟩ | ⟨o, ⟨hwaker, -⟩ | ⟨hwaker, -⟩⟩
        · rw [hsleeper]
          exact Nat.one_pos
        · rw [hpoint] at hwaker
          cases hwaker
        · rw [hpoint] at hwaker
          cases hwaker
      · dsimp only at hpoint
        rw [hself] at hpoint
        exact absurd hpoint (pthreadBarrier_wakes_one hwakes)
      · dsimp only at hpoint
        rw [hself] at hpoint
        rcases hears_iff.mp hhears with ⟨role, hwaker, -⟩ | ⟨o', ⟨hwaker, -⟩ | ⟨hwaker, hsleeper⟩⟩
        · rw [hpoint] at hwaker
          cases hwaker
        · rw [hpoint] at hwaker
          cases hwaker
        · rw [hpoint] at hwaker
          cases hwaker
          obtain rfl : o = sleeper :=
            h.own sleeper o (by rw [BarrierThread.waitsFor, hsleeper])
          refine hrouse.owner_awake ?_
          dsimp only
          rw [Function.update_self, hsleeper]
          rfl
  | wakeNone hwakes hnone =>
      refine h.wakes hcard hwakes (fun role hpoint => Or.inl ?_) (fun o hpoint => ?_)
        (fun o hpoint => ?_)
      · refine Finset.sum_eq_zero fun u _ => ?_
        by_contra hpos
        have hheard := hnone u
        rw [hears_iff.mpr (Or.inl ⟨role, hpoint,
          BarrierThread.lockSleeping_pos (Nat.pos_of_ne_zero hpos)⟩)] at hheard
        cases hheard
      · exact absurd hpoint (pthreadBarrier_wakes_one hwakes)
      · refine Finset.sum_eq_zero fun u _ => ?_
        by_contra hpos
        have hheard := hnone u
        rw [hears_iff.mpr (Or.inr ⟨o, Or.inr ⟨hpoint,
          BarrierThread.finishedSleeping_pos (Nat.pos_of_ne_zero hpos)⟩⟩)] at hheard
        cases hheard
  | wakeAll hwakes =>
      obtain ⟨o, hpoint⟩ := pthreadBarrier_wakes_all hwakes
      obtain ⟨hrouse, hnone⟩ := @BarrierWaits.rouseAll _ _ _ limit _ h _ o hpoint
      have hself : FutexThreads.rouseAll (pthreadBarrier limit) (s.control t) s.control t =
          s.control t := rouseAll_self (pthreadBarrier_wakes hwakes).1
      rw [← hself] at hwakes
      refine hrouse.wakes hcard hwakes (fun role hpoint' => ?_) (fun o' hpoint' => ?_)
        (fun o' hpoint' => ?_)
      · dsimp only at hpoint'
        rw [hself, hpoint] at hpoint'
        cases hpoint'
      · dsimp only at hpoint'
        rw [hself, hpoint] at hpoint'
        cases hpoint'
        exact hnone
      · dsimp only at hpoint'
        rw [hself, hpoint] at hpoint'
        cases hpoint'

theorem barrierInit_waiting {labels : List T} (hlimit : 0 < limit) (hbound : limit < 0x100000000)
    (hcard : Fintype.card T < 0x100000000)
    (hrun : Run (FutexThreads.Step (pthreadBarrier limit)) barrierInit labels s) :
    BarrierInv limit s ∧ BarrierWaits s := by
  have hstart : BarrierInv limit (barrierInit : BarrierState T) ∧
      BarrierWaits (barrierInit : BarrierState T) :=
    ⟨⟨barrierInit_held, Rounds.start_inv limit⟩, barrierInit_waits⟩
  apply hrun.preserves _ hstart
  intro s t u h hstep
  exact ⟨h.1.step hlimit hbound hstep, h.2.step hcard h.1 hstep⟩

/-- The thread makes no step by itself. -/
def BarrierPoint.Rests (point : BarrierPoint T) : Prop :=
  point = .outside ∨ point.asleep = true

omit [DecidableEq T] [Fintype T] in
theorem BarrierPoint.rests_cases {point : BarrierPoint T} (h : point.Rests) :
    point = .outside ∨ point = .waitLock .asleep ∨
      ∃ o, point = .waitFinished o .asleep ∨ point = .waitLast o .asleep := by
  rcases h with houtside | hasleep
  · exact Or.inl houtside
  · unfold BarrierPoint.asleep at hasleep
    split at hasleep
    · exact Or.inr (Or.inl rfl)
    · exact Or.inr (Or.inr ⟨_, Or.inl rfl⟩)
    · exact Or.inr (Or.inr ⟨_, Or.inr rfl⟩)
    · cases hasleep

omit [Fintype T] in
/-- Nobody attends to a queue where all threads rest. -/
theorem Rests.idle (hrest : ∀ t, (s.control t).point.Rests) (o u : T) :
    (s.control u).lockAttending = 0 ∧ (s.control u).lastAttending o = 0 ∧
      (s.control u).finishedAttending o = 0 := by
  generalize hc : s.control u = c
  have hcases := BarrierPoint.rests_cases (hrest u)
  rw [hc] at hcases
  obtain ⟨returns, serials, point⟩ := c
  rcases hcases with rfl | rfl | ⟨o', rfl | rfl⟩ <;> exact ⟨rfl, rfl, rfl⟩

/-- Nobody is on its way through a round where all threads rest. -/
theorem Rests.sums (hrest : ∀ t, (s.control t).point.Rests) (o : T) :
    Rounds.sumOf (Rounds.Stage.closes o) (roundsOf s).members = 0 ∧
      Rounds.sumOf (Rounds.Stage.lates o) (roundsOf s).members = 0 ∧
      Rounds.sumOf (Rounds.Stage.exits o) (roundsOf s).members = 0 := by
  have hstage : ∀ u, (s.control u).point.stage.closes o = 0 ∧
      (s.control u).point.stage.lates o = 0 ∧ (s.control u).point.stage.exits o = 0 := by
    intro u
    rcases BarrierPoint.rests_cases (hrest u) with hpoint | hpoint | ⟨o', hpoint | hpoint⟩ <;>
      rw [hpoint] <;> exact ⟨rfl, rfl, rfl⟩
  exact ⟨Finset.sum_eq_zero fun u _ => (hstage u).1, Finset.sum_eq_zero fun u _ => (hstage u).2.1,
    Finset.sum_eq_zero fun u _ => (hstage u).2.2⟩

/-- The flag for which a thread sleeps that nobody will wake has not been set. -/
theorem BarrierWaits.last_of_rest (h : BarrierWaits s) (hrest : ∀ t, (s.control t).point.Rests)
    {t o : T} (hpoint : (s.control t).point = .waitLast o .asleep) :
    (s.memory.frames o).last = 0 := by
  by_contra hlast
  have hasleep : 0 < (s.control t).lastSleeping o := by
    rw [BarrierThread.lastSleeping, hpoint]
    simp
  obtain ⟨u, hu⟩ := (h.last o).attended.attending hlast hasleep
  exact absurd (Rests.idle hrest o u).2.1 (Nat.pos_iff_ne_zero.mp hu)

/-- The lock is free where all threads rest, and nobody waits for it. -/
theorem BarrierWaits.lock_of_rest (h : BarrierWaits s) (hinv : BarrierInv limit s)
    (hrest : ∀ t, (s.control t).point.Rests) (t : T) :
    (s.control t).point ≠ .waitLock .asleep := by
  intro hpoint
  have hout : total (fun c : BarrierThread T => c.point.inLock) s.control = 0 := by
    refine Finset.sum_eq_zero fun u _ => ?_
    dsimp only
    rcases BarrierPoint.rests_cases (hrest u) with hu | hu | ⟨o, hu | hu⟩ <;> rw [hu] <;> rfl
  have hfree : s.memory.lock = 0 := by rw [← hinv.held.2, hout]
  have hasleep : 0 < (s.control t).lockSleeping := by
    rw [BarrierThread.lockSleeping, hpoint]
    exact Nat.one_pos
  obtain ⟨u, hu⟩ := h.lock.attended.attending (not_not_intro hfree) hasleep
  exact absurd (Rests.idle hrest t u).1 (Nat.pos_iff_ne_zero.mp hu)

/-- Where all threads rest, those that sleep are in the open round. -/
theorem BarrierWaits.rest (h : BarrierWaits s) (hinv : BarrierInv limit s)
    (hrest : ∀ t, (s.control t).point.Rests) (t : T) :
    (s.control t).point = .outside ∨ ∃ o, s.memory.inst = some o ∧
      ((s.control t).point = .waitFinished o .asleep ∧ t = o ∨
        (s.control t).point = .waitLast o .asleep) := by
  have hopen : ∀ o, (if (roundsOf s).inst = some o then 1 else 0) = 1 → s.memory.inst = some o := by
    intro o hone
    by_contra hinst
    rw [if_neg (show ¬ (roundsOf s).inst = some o from hinst)] at hone
    cases hone
  rcases BarrierPoint.rests_cases (hrest t) with hpoint | hpoint | ⟨o, hpoint | hpoint⟩
  · exact Or.inl hpoint
  · exact absurd hpoint (h.lock_of_rest hinv hrest t)
  · obtain rfl : o = t := h.own t o (by rw [BarrierThread.waitsFor, hpoint])
    have hstage : ((roundsOf s).members o).stage = .owned := by
      show (s.control o).point.stage = _
      rw [hpoint]
      rfl
    have hfinished : (s.memory.frames o).finished = 1 := by
      by_contra hfinished
      have hasleep : 0 < (s.control o).finishedSleeping o := by
        rw [BarrierThread.finishedSleeping, hpoint]
        simp
      obtain ⟨u, hu⟩ := (h.finished o).attending hfinished hasleep
      exact absurd (Rests.idle hrest o u).2.2 (Nat.pos_iff_ne_zero.mp hu)
    obtain ⟨hcloses, hlates, hexits⟩ := Rests.sums hrest o
    have hsound := hinv.rounds.sound o
    unfold Rounds.State.Sound at hsound
    rw [hcloses, hlates, hexits, hstage] at hsound
    refine Or.inr ⟨o, hopen o (hsound.opened_of_owned hfinished fun hmid => ?_),
      Or.inl ⟨hpoint, rfl⟩⟩
    obtain ⟨u, hu⟩ := total_pos_iff.mp hmid
    have hmid' : 0 < (s.control u).point.stage.mids o := hu
    rcases BarrierPoint.rests_cases (hrest u) with hu | hu | ⟨o', hu | hu⟩
    · rw [hu] at hmid'
      cases hmid'
    · rw [hu] at hmid'
      cases hmid'
    · rw [hu] at hmid'
      cases hmid'
    · rw [hu, BarrierPoint.stage_waitLast (by simp), Rounds.Stage.mids] at hmid'
      split at hmid'
      · rename_i ho
        exact h.last_of_rest hrest (ho ▸ hu)
      · cases hmid'
  · have hsound := hinv.rounds.sound o
    unfold Rounds.State.Sound at hsound
    rw [(Rests.sums hrest o).1] at hsound
    refine Or.inr ⟨o, hopen o (hsound.opened_of_mid ?_ (h.last_of_rest hrest hpoint)),
      Or.inr hpoint⟩
    have hstage : ((roundsOf s).members t).stage = .middle o := by
      show (s.control t).point.stage = _
      rw [hpoint]
      rfl
    exact Rounds.sumOf_pos_of (t := t) (by rw [hstage]; simp)

/-- The code can come to rest only with fewer threads than a round takes, and with these threads
asleep in the open round; all others have returned in full rounds, one of each round with
`PTHREAD_BARRIER_SERIAL_THREAD`. -/
theorem pthreadBarrier_rest {labels : List T} (hlimit : 0 < limit) (hbound : limit < 0x80000000)
    (hcard : Fintype.card T < 0x100000000)
    (hrun : Run (FutexThreads.Step (pthreadBarrier limit)) barrierInit labels s)
    (hrest : ∀ t, (s.control t).point.Rests) :
    total BarrierThread.returns s.control = (limit + 1) * total BarrierThread.serials s.control ∧
      total (fun c => c.point.arrived) s.control ≤ limit ∧
      ∀ t, (s.control t).point = .outside ∨ ∃ o, s.memory.inst = some o ∧
        ((s.control t).point = .waitFinished o .asleep ∧ t = o ∨
          (s.control t).point = .waitLast o .asleep) := by
  obtain ⟨hinv, hwaits⟩ := barrierInit_waiting hlimit (by omega) hcard hrun
  have hopen := hwaits.rest hinv hrest
  have hrounds := hinv.rounds.rest (fun t hinside => ?_)
  · rw [total_arrived]
    exact ⟨hrounds.1, hrounds.2, hopen⟩
  · have hinside' : (s.control t).point.stage.inside = 1 := hinside
    rcases hopen t with hpoint | ⟨o, hinst, ⟨-, ht⟩ | hpoint⟩
    · rw [hpoint] at hinside'
      cases hinside'
    · exact ⟨o, hinst, Or.inr ht⟩
    · refine ⟨o, hinst, Or.inl ?_⟩
      show (s.control t).point.stage = _
      rw [hpoint]
      rfl

namespace BarrierWitness

/-- The first thread sleeps as the owner of a round, and the second has not called. -/
def waiting : Option (BarrierState Caller) :=
  replay (pthreadBarrier 1) barrierInit [.call .first ⟨0, 0, .swapLock⟩, .alone .first 310]

theorem waiting_rest : ∃ s, waiting = some s ∧
    total BarrierThread.returns s.control = 2 * total BarrierThread.serials s.control ∧
    total (fun c => c.point.arrived) s.control ≤ 1 := by
  obtain ⟨s, hs⟩ := Option.isSome_iff_exists.mp (show waiting.isSome = true by decide +kernel)
  obtain ⟨labels, hrun⟩ := replay_run hs
  have hrest : ∀ s ∈ waiting, ∀ t, (s.control t).point = .outside ∨
      (s.control t).point.asleep = true := by decide +kernel
  obtain ⟨hreturns, harrived, -⟩ :=
    pthreadBarrier_rest (by decide) (by decide) (by decide) hrun (hrest s hs)
  exact ⟨s, hs, hreturns, harrived⟩

end BarrierWitness

end Sync

end WasixLibc
