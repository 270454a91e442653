/-
The lock for many readers or one writer.

The word is the number of readers, or all ones for a writer, and a flag that some
thread may wait.  The last thread that leaves clears the flag too, so that the count
of waiters has to say who is still there.
-/
import WasixLibc.FutexWait

namespace WasixLibc

namespace Sync

open FutexThreads

/-- The `_rw_lock`, as an unsigned number, and the `_rw_waiters` of a lock. -/
structure RwMemory where
  lock : Nat
  waiters : Nat
deriving Repr, DecidableEq

/-- Which attempt a thread makes. -/
inductive RwTry where
  /-- `pthread_rwlock_tryrdlock` or `pthread_rwlock_trywrlock` itself -/
  | once
  /-- The one before the spinning loop. -/
  | first
  /-- The one at the head of the main loop. -/
  | again
deriving Repr, DecidableEq

/-- Where a thread is in the functions on a lock; `writer` tells the two kinds of waits. -/
inductive RwPoint where
  | done (result : Nat)
  | tryRead (attempt : RwTry)
  | casRead (attempt : RwTry) (val : Nat)
  | tryWrite (attempt : RwTry)
  /-- `rw->_rw_lock`, with so many turns of the spinning loop left after this one. -/
  | spin (writer : Bool) (spins : Nat)
  | spinWaiters (writer : Bool) (spins : Nat)
  | look (writer : Bool)
  | count (writer : Bool) (r : Nat)
  | mark (writer : Bool) (r : Nat)
  | wait (writer : Bool) (t : Nat) (point : TimedPoint)
  | leave (writer : Bool) (r : Option Nat)
  | unlock
  | unlockWaiters (val : Nat)
  | swap (val waiters : Nat)
  | wake (cnt : Nat)
deriving Repr, DecidableEq

/-- A thread, with the locks it has. -/
structure RwThread where
  reads : Nat
  writes : Bool
  point : RwPoint
deriving Repr, DecidableEq

/-- The thread goes on somewhere, with the same locks. -/
def RwThread.go (c : RwThread) (point : RwPoint) : RwThread := { c with point }

/-- What follows `EBUSY`. -/
def RwTry.busy (writer : Bool) : RwTry → RwPoint
  | .once => .done EBUSY
  | .first => .spin writer 99
  | .again => .look writer

/-- The head of the main loop. -/
def RwPoint.retry (writer : Bool) : RwPoint := if writer then .tryWrite .again else .tryRead .again

/-- `new` in `__pthread_rwlock_unlock`. -/
def rwReleased (val : Nat) : Nat :=
  if val % 0x80000000 = 0x7fffffff ∨ val % 0x80000000 = 1 then 0
  else (val + 0xffffffff) % 0x100000000

/-- The thread gives back what the word says it has. -/
def RwThread.release (c : RwThread) (val : Nat) : RwThread :=
  if val % 0x80000000 = 0x7fffffff then { c with writes := false }
  else { c with reads := c.reads - 1 }

/-- One access to the word or to the count of waiters. -/
def RwThread.run (m : RwMemory) (c : RwThread) : Option (RwMemory × RwThread) :=
  match c.point with
  | .tryRead attempt =>
      some (m, c.go <|
        if m.lock % 0x80000000 = 0x7fffffff then attempt.busy false
        else if m.lock % 0x80000000 = 0x7ffffffe then .done EAGAIN
        else .casRead attempt m.lock)
  | .casRead attempt val =>
      some <|
        if m.lock = val then
          ({ m with lock := (val + 1) % 0x100000000 }, ⟨c.reads + 1, c.writes, .done 0⟩)
        else (m, c.go (.tryRead attempt))
  | .tryWrite attempt =>
      some <|
        if m.lock = 0 then ({ m with lock := 0x7fffffff }, ⟨c.reads, true, .done 0⟩)
        else (m, c.go (attempt.busy true))
  | .spin writer spins =>
      some (m, c.go (if m.lock = 0 then .retry writer else .spinWaiters writer spins))
  | .spinWaiters writer spins =>
      some (m, c.go <|
        if m.waiters ≠ 0 then .retry writer
        else match spins with
          | 0 => .retry writer
          | spins + 1 => .spin writer spins)
  | .look writer =>
      some (m, c.go <|
        if m.lock = 0 ∨ writer = false ∧ m.lock % 0x80000000 ≠ 0x7fffffff then .retry writer
        else .count writer m.lock)
  | .count writer r =>
      some ({ m with waiters := (m.waiters + 1) % 0x100000000 }, c.go (.mark writer r))
  | .mark writer r =>
      some (if m.lock = r then { m with lock := flagged r } else m,
        c.go (.wait writer (flagged r) .called))
  | .wait writer t point =>
      (point.turn (m.lock = t) (fun point => c.go (.wait writer t point))
        (fun r => c.go (.leave writer r))).map fun c => (m, c)
  | .leave writer r =>
      some ({ m with waiters := (m.waiters + 0xffffffff) % 0x100000000 },
        c.go (r.elim (.retry writer) .done))
  | .unlock => some (m, c.go (.unlockWaiters m.lock))
  | .unlockWaiters val => some (m, c.go (.swap val m.waiters))
  | .swap val waiters =>
      some <|
        if m.lock = val then
          ({ m with lock := rwReleased val }, (c.release val).go <|
            if rwReleased val = 0 ∧ (waiters ≠ 0 ∨ 0x80000000 ≤ val) then .wake (val % 0x80000000)
            else .done 0)
        else (m, c.go .unlock)
  | .done _ | .wake _ => none

def RwThread.asleep (c : RwThread) : Bool :=
  match c.point with
  | .wait _ _ .asleep => true
  | _ => false

def RwThread.roused (c : RwThread) : RwThread :=
  match c.point with
  | .wait writer _ .asleep => c.go (.leave writer none)
  | _ => c

def RwThread.stirred (c : RwThread) : RwThread :=
  match c.point with
  | .wait writer t .asleep => c.go (.wait writer t .stirred)
  | _ => c

def RwThread.refused (m : RwMemory) (c : RwThread) : Option RwThread :=
  match c.point with
  | .wait writer t point => point.refused (m.lock = t) (fun r => c.go (.leave writer r))
  | _ => none

/-- The calls, and the ends of `__timedwait` before the word is looked at. -/
def RwPoint.calls (held : Bool) : RwPoint → RwPoint → Bool
  | .done _, .tryRead attempt => attempt ≠ .again
  | .done _, .tryWrite attempt => attempt ≠ .again
  | .done _, .unlock => held
  | .wait writer _ .called, .leave writer' (some r) =>
      writer = writer' ∧ (r = ETIMEDOUT ∨ r = EINVAL)
  | _, _ => false

/-- What a caller may do; the lock is given back by a thread that has it. -/
def RwThread.Calls (c c' : RwThread) : Prop :=
  c' = c.go c'.point ∧ c.point.calls (0 < c.reads || c.writes) c'.point = true

/-- The functions on a `pthread_rwlock_t`. -/
def rwLock {T : Type} : FutexProgram RwMemory RwThread T where
  run _ := RwThread.run
  call := RwThread.Calls
  asleep := RwThread.asleep
  hears _ := RwThread.asleep
  roused := RwThread.roused
  stirred := RwThread.stirred
  refused := RwThread.refused
  wakes c :=
    match c.point with
    | .wake cnt => some (if cnt = 0x7fffffff then .all else .one, c.go (.done 0))
    | _ => none

instance {T : Type} (c c' : RwThread) :
    Decidable ((rwLock : FutexProgram RwMemory RwThread T).call c c') :=
  inferInstanceAs (Decidable (_ ∧ _))

@[simp] def RwThread.writing (c : RwThread) : Nat := if c.writes then 1 else 0

/-- The thread is one of those in `_rw_waiters`. -/
@[simp] def RwPoint.counted : RwPoint → Nat
  | .mark _ _ | .wait _ _ _ | .leave _ _ => 1
  | _ => 0

@[simp] def RwPoint.sleeping : RwPoint → Nat
  | .wait _ _ .asleep => 1
  | _ => 0

@[simp] def RwPoint.sleepingReader : RwPoint → Nat
  | .wait false _ .asleep => 1
  | _ => 0

@[simp] def RwPoint.waking : RwPoint → Nat
  | .wake _ => 1
  | _ => 0

@[simp] def RwPoint.wakingAll : RwPoint → Nat
  | .wake cnt => if cnt = 0x7fffffff then 1 else 0
  | _ => 0

/-- The thread was woken and has not yet tried to take the lock. -/
@[simp] def RwPoint.attending : RwPoint → Nat
  | .leave _ none | .tryRead .again | .casRead .again _ | .tryWrite .again => 1
  | _ => 0

/-- The thread is about to leave the lock, and has seen no waiters. -/
@[simp] def RwPoint.stale : RwPoint → Nat
  | .swap val waiters => if waiters = 0 ∧ val < 0x80000000 then 1 else 0
  | _ => 0

/-- What a thread keeps in its variables. -/
def RwThread.Sensible (c : RwThread) : Prop :=
  match c.point with
  | .casRead _ val => val < 0x100000000 ∧ val % 0x80000000 < 0x7ffffffe
  | .count writer r | .mark writer r =>
      r ≠ 0 ∧ r < 0x100000000 ∧ (writer = false → r % 0x80000000 = 0x7fffffff)
  | .wait writer t _ => 0x80000000 ≤ t ∧ (writer = false → t % 0x80000000 = 0x7fffffff)
  | .unlock | .unlockWaiters _ | .swap _ _ => 0 < c.reads ∨ c.writes = true
  | _ => True

variable {T : Type} [Fintype T]

/-- A sum over the places of the threads. -/
abbrev sumAt (weight : RwPoint → Nat) (control : T → RwThread) : Nat :=
  total (fun c => weight c.point) control

theorem le_sumAt (weight : RwPoint → Nat) (control : T → RwThread) (t : T) :
    weight (control t).point ≤ sumAt weight control :=
  le_total (fun c => weight c.point) control t

theorem sleepingReader_le (control : T → RwThread) :
    sumAt RwPoint.sleepingReader control ≤ sumAt RwPoint.sleeping control := by
  refine Finset.sum_le_sum fun t _ => ?_
  dsimp only
  cases (control t).point with
  | wait writer r point => cases writer <;> cases point <;> simp
  | _ => simp

/-- What the word says of the locks that are held. -/
def RwAgrees (lock reads writing : Nat) : Prop :=
  lock < 0x100000000 ∧ (lock % 0x80000000 = 0 → lock = 0) ∧
    (writing = 0 ∧ reads = lock % 0x80000000 ∧ lock % 0x80000000 < 0x7fffffff ∨
      writing = 1 ∧ reads = 0 ∧ lock % 0x80000000 = 0x7fffffff)

/-- The invariant of the lock. -/
structure RwInv (s : FutexState RwMemory RwThread T) : Prop where
  agrees : RwAgrees s.memory.lock (total RwThread.reads s.control)
    (total RwThread.writing s.control)
  count : s.memory.waiters = sumAt RwPoint.counted s.control
  sensible : ∀ t, (s.control t).Sensible
  fresh : 0 < sumAt RwPoint.stale s.control → 0 < sumAt RwPoint.sleeping s.control →
    0x80000000 ≤ s.memory.lock
  attended : 0 < sumAt RwPoint.sleeping s.control → s.memory.lock ≠ 0 ∨
    0 < sumAt RwPoint.waking s.control ∨ 0 < sumAt RwPoint.attending s.control
  readers : 0 < sumAt RwPoint.sleepingReader s.control →
    0 < total RwThread.writing s.control ∨ 0 < sumAt RwPoint.wakingAll s.control

/-- `PTHREAD_RWLOCK_INITIALIZER` -/
def rwInit : FutexState RwMemory RwThread T := ⟨⟨0, 0⟩, fun _ => ⟨0, false, .done 0⟩⟩

theorem rwInit_inv : RwInv (rwInit : FutexState RwMemory RwThread T) := by
  refine ⟨?_, ?_, fun _ => trivial, ?_, ?_, ?_⟩
  · simp [rwInit, RwAgrees, total]
  · simp [rwInit, total]
  · simp [rwInit, total]
  · simp [rwInit, total]
  · simp [rwInit, total]

variable [DecidableEq T]

/-- A thread moves, and the sums and the memory still agree. -/
theorem RwInv.move {s : FutexState RwMemory RwThread T} (h : RwInv s) {t : T} {m : RwMemory}
    {c : RwThread} (hsensible : c.Sensible)
    (hagrees : ∀ reads writing,
      reads + (s.control t).reads = total RwThread.reads s.control + c.reads →
      writing + (s.control t).writing = total RwThread.writing s.control + c.writing →
      RwAgrees m.lock reads writing)
    (hcount : ∀ counted,
      counted + (s.control t).point.counted =
        sumAt RwPoint.counted s.control + c.point.counted → m.waiters = counted)
    (hfresh : ∀ stale sleeping,
      stale + (s.control t).point.stale = sumAt RwPoint.stale s.control + c.point.stale →
      sleeping + (s.control t).point.sleeping =
        sumAt RwPoint.sleeping s.control + c.point.sleeping →
      0 < stale → 0 < sleeping → 0x80000000 ≤ m.lock)
    (hattended : ∀ sleeping waking attending,
      sleeping + (s.control t).point.sleeping =
        sumAt RwPoint.sleeping s.control + c.point.sleeping →
      waking + (s.control t).point.waking = sumAt RwPoint.waking s.control + c.point.waking →
      attending + (s.control t).point.attending =
        sumAt RwPoint.attending s.control + c.point.attending →
      0 < sleeping → m.lock ≠ 0 ∨ 0 < waking ∨ 0 < attending)
    (hreaders : ∀ sleeping writing wakingAll,
      sleeping + (s.control t).point.sleepingReader =
        sumAt RwPoint.sleepingReader s.control + c.point.sleepingReader →
      writing + (s.control t).writing = total RwThread.writing s.control + c.writing →
      wakingAll + (s.control t).point.wakingAll =
        sumAt RwPoint.wakingAll s.control + c.point.wakingAll →
      0 < sleeping → 0 < writing ∨ 0 < wakingAll) :
    RwInv ⟨m, Function.update s.control t c⟩ := by
  have hsum : ∀ weight : RwPoint → Nat, sumAt weight (Function.update s.control t c) +
      weight (s.control t).point = sumAt weight s.control + weight c.point :=
    fun weight => total_update (fun c => weight c.point) s.control t c
  refine ⟨?_, hcount _ (hsum _), ?_, hfresh _ _ (hsum _) (hsum _),
    hattended _ _ _ (hsum _) (hsum _) (hsum _),
    hreaders _ _ _ (hsum _) (total_update _ _ _ _) (hsum _)⟩
  · exact hagrees _ _ (total_update _ _ _ _) (total_update _ _ _ _)
  · exact (Function.forall_update_iff s.control fun _ c => c.Sensible).mpr
      ⟨hsensible, fun u _ => h.sensible u⟩

omit [DecidableEq T] in
/-- Whoever sleeps is counted. -/
theorem RwInv.sleeping_le {s : FutexState RwMemory RwThread T} (h : RwInv s) :
    sumAt RwPoint.sleeping s.control ≤ s.memory.waiters := by
  rw [h.count]
  refine Finset.sum_le_sum fun t _ => ?_
  dsimp only
  cases (s.control t).point with
  | wait writer r point => cases point <;> simp
  | _ => simp

/-- A thread moves and leaves the memory and its locks as they are. -/
theorem RwInv.pass {s : FutexState RwMemory RwThread T} (h : RwInv s) {t : T} {point : RwPoint}
    (hsensible : ((s.control t).go point).Sensible)
    (hcounted : point.counted = (s.control t).point.counted)
    (hwaking : point.waking = (s.control t).point.waking ∧
      point.wakingAll = (s.control t).point.wakingAll)
    (hsleeps : point.sleeping ≤ (s.control t).point.sleeping ∨ 0x80000000 ≤ s.memory.lock)
    (hstale : point.stale ≤ (s.control t).point.stale ∨ s.memory.waiters = 0)
    (hattends : (s.control t).point.attending ≤ point.attending ∨ s.memory.lock ≠ 0)
    (hreader : point.sleepingReader ≤ (s.control t).point.sleepingReader ∨
      s.memory.lock % 0x80000000 = 0x7fffffff) :
    RwInv ⟨s.memory, Function.update s.control t ((s.control t).go point)⟩ := by
  have hsleeping := h.sleeping_le
  have hagrees := h.agrees
  have hfresh := h.fresh
  have hattended := h.attended
  have hreaders := h.readers
  have hpoint : ((s.control t).go point).point = point := rfl
  have hwriting : ((s.control t).go point).writing = (s.control t).writing := rfl
  refine h.move hsensible ?_ ?_ ?_ ?_ ?_
  · intro reads writing hreads hwriting
    obtain rfl : reads = total RwThread.reads s.control := Nat.add_right_cancel hreads
    obtain rfl : writing = total RwThread.writing s.control := Nat.add_right_cancel hwriting
    exact hagrees
  · intro counted hcounted'
    rw [hpoint, hcounted, Nat.add_right_cancel_iff] at hcounted'
    rw [h.count, hcounted']
  · intro stale sleeping hstale' hsleeping hpos hsleep
    rw [hpoint] at hstale' hsleeping
    rcases hsleeps with hle | hflag
    · rcases hstale with hle' | hnone
      · exact hfresh (by omega) (by omega)
      · omega
    · exact hflag
  · intro sleeping waking attending hsleeping hwaking' hattending hsleep
    rw [hpoint] at hsleeping hwaking' hattending
    rw [hwaking.1] at hwaking'
    rcases hsleeps with hle | hflag
    · have hattended := hattended (by omega)
      omega
    · refine Or.inl ?_
      omega
  · intro sleeping writing wakingAll hsleeping hwriting' hwakingAll hsleep
    rw [hpoint] at hsleeping hwakingAll
    rw [hwriting] at hwriting'
    rw [hwaking.2] at hwakingAll
    rcases hreader with hle | hwriter
    · have hreaders := hreaders (by omega)
      omega
    · unfold RwAgrees at hagrees
      omega

/-- A thread moves that does not sleep and does not wake, and that may have read the count. -/
theorem RwInv.notes {s : FutexState RwMemory RwThread T} (h : RwInv s) {t : T} {now point : RwPoint}
    (hnow : (s.control t).point = now) (hsensible : ((s.control t).go point).Sensible)
    (hsame : point.counted = now.counted ∧ point.waking = now.waking ∧
      point.wakingAll = now.wakingAll ∧ point.sleeping = now.sleeping ∧
      point.sleepingReader = now.sleepingReader)
    (hstale : point.stale ≤ now.stale ∨ s.memory.waiters = 0)
    (hattends : now.attending ≤ point.attending ∨ s.memory.lock ≠ 0) :
    RwInv ⟨s.memory, Function.update s.control t ((s.control t).go point)⟩ := by
  obtain ⟨hcounted, hwaking, hall, hsleeping, hreader⟩ := hsame
  subst hnow
  exact h.pass hsensible hcounted ⟨hwaking, hall⟩ (Or.inl hsleeping.le) hstale hattends
    (Or.inl hreader.le)

/-- A thread moves that does not sleep and does not wake. -/
theorem RwInv.goes {s : FutexState RwMemory RwThread T} (h : RwInv s) {t : T} {now point : RwPoint}
    (hnow : (s.control t).point = now) (hsensible : ((s.control t).go point).Sensible)
    (hsame : point.counted = now.counted ∧ point.waking = now.waking ∧
      point.wakingAll = now.wakingAll ∧ point.sleeping = now.sleeping ∧
      point.stale = now.stale ∧ point.sleepingReader = now.sleepingReader)
    (hattends : now.attending ≤ point.attending ∨ s.memory.lock ≠ 0) :
    RwInv ⟨s.memory, Function.update s.control t ((s.control t).go point)⟩ := by
  obtain ⟨hcounted, hwaking, hall, hsleeping, hstale, hreader⟩ := hsame
  exact h.notes hnow hsensible ⟨hcounted, hwaking, hall, hsleeping, hreader⟩ (Or.inl hstale.le)
    hattends

theorem RwAgrees.pos {lock reads writing : Nat} (h : RwAgrees lock reads writing)
    (hheld : 0 < reads ∨ 0 < writing) : lock ≠ 0 := by
  unfold RwAgrees at h
  omega

/-- The access of a reader that takes the lock. -/
theorem RwInv.takeRead {s : FutexState RwMemory RwThread T} (h : RwInv s) {t : T}
    {attempt : RwTry} (hpoint : (s.control t).point = .casRead attempt s.memory.lock) :
    RwInv ⟨{ s.memory with lock := (s.memory.lock + 1) % 0x100000000 }, Function.update s.control t
      ⟨(s.control t).reads + 1, (s.control t).writes, .done 0⟩⟩ := by
  have hagrees := h.agrees
  have hfresh := h.fresh
  have hattended := h.attended
  have hreaders := h.readers
  have hsensible := h.sensible t
  have hmove := @RwInv.move T _ _ s h t
  have hwriting : (RwThread.mk ((s.control t).reads + 1) (s.control t).writes (.done 0)).writing =
    (s.control t).writing := rfl
  unfold RwThread.Sensible at hsensible
  rw [hpoint] at hsensible hmove
  unfold RwAgrees at hagrees
  refine hmove trivial ?_ ?_ ?_ ?_ ?_
  · intro reads writing hreads hwriting'
    rw [hwriting] at hwriting'
    simp only at hreads hsensible
    unfold RwAgrees
    dsimp only
    omega
  · intro counted hcounted
    simp at hcounted
    rw [h.count, hcounted]
  · intro stale sleeping hstale hsleeping hpos hsleep
    simp at hstale hsleeping
    have hfresh := hfresh (by omega) (by omega)
    simp only at hsensible ⊢
    omega
  · intro sleeping waking attending hsleeping hwaking hattending hsleep
    simp only at hsensible
    refine Or.inl ?_
    dsimp only
    omega
  · intro sleeping writing wakingAll hsleeping hwriting' hwakingAll hsleep
    simp at hsleeping hwakingAll
    have hreaders := hreaders (by omega)
    rw [hwriting] at hwriting'
    omega

omit [DecidableEq T] in
/-- A thread that is about to leave has the lock. -/
theorem stale_le {control : T → RwThread} (hsensible : ∀ t, (control t).Sensible) :
    sumAt RwPoint.stale control ≤
      total RwThread.reads control + total RwThread.writing control := by
  rw [← total_add]
  refine Finset.sum_le_sum fun t _ => ?_
  have hsensible := hsensible t
  dsimp only
  generalize control t = c at hsensible
  obtain ⟨reads, writes, point⟩ := c
  cases point with
  | swap val waiters =>
      have hheld : 1 ≤ reads + (RwThread.mk reads writes (.swap val waiters)).writing := by
        rcases hsensible with hpos | rfl
        · exact Nat.le_add_right_of_le hpos
        · exact Nat.le_add_left _ _
      refine Nat.le_trans ?_ hheld
      simp only [RwPoint.stale]
      split <;> omega
  | _ => exact Nat.zero_le _

omit [DecidableEq T] in
/-- No thread is about to leave a lock that is free. -/
theorem RwInv.no_stale {s : FutexState RwMemory RwThread T} (h : RwInv s)
    (hfree : s.memory.lock = 0) : sumAt RwPoint.stale s.control = 0 := by
  have hstale := stale_le h.sensible
  have hagrees := h.agrees
  unfold RwAgrees at hagrees
  omega

/-- The access of a writer that takes the lock. -/
theorem RwInv.takeWrite {s : FutexState RwMemory RwThread T} (h : RwInv s) {t : T}
    {attempt : RwTry} (hpoint : (s.control t).point = .tryWrite attempt)
    (hfree : s.memory.lock = 0) :
    RwInv ⟨{ s.memory with lock := 0x7fffffff }, Function.update s.control t
      ⟨(s.control t).reads, true, .done 0⟩⟩ := by
  have hagrees := h.agrees
  have hreaders := h.readers
  have hmove := @RwInv.move T _ _ s h t
  have hold := le_total RwThread.writing s.control t
  rw [hpoint] at hmove
  unfold RwAgrees at hagrees
  refine hmove trivial ?_ ?_ ?_ ?_ ?_
  · intro reads writing hreads hwriting
    obtain rfl : reads = total RwThread.reads s.control := Nat.add_right_cancel hreads
    simp only [RwThread.writing, if_true] at hwriting hold
    unfold RwAgrees
    dsimp only
    omega
  · intro counted hcounted
    simp at hcounted
    rw [h.count, hcounted]
  · intro stale sleeping hstale' hsleeping hpos hsleep
    have hstale : sumAt RwPoint.stale s.control = 0 := h.no_stale hfree
    simp at hstale'
    omega
  · intro sleeping waking attending hsleeping hwaking hattending hsleep
    exact Or.inl (show 0x7fffffff ≠ 0 by decide)
  · intro sleeping writing wakingAll hsleeping hwriting hwakingAll hsleep
    simp only [RwThread.writing, if_true] at hwriting
    simp only [RwThread.writing] at hold
    omega

/-- The access that announces that a thread may wait. -/
theorem RwInv.mark {s : FutexState RwMemory RwThread T} (h : RwInv s) {t : T} {writer : Bool}
    (hpoint : (s.control t).point = .mark writer s.memory.lock) :
    RwInv ⟨{ s.memory with lock := flagged s.memory.lock }, Function.update s.control t
      ((s.control t).go (.wait writer (flagged s.memory.lock) .called))⟩ := by
  have hagrees := h.agrees
  have hreaders := h.readers
  have hsensible := h.sensible t
  have hmove := @RwInv.move T _ _ s h t
  unfold RwThread.Sensible at hsensible
  rw [hpoint] at hsensible hmove
  unfold RwAgrees at hagrees
  obtain ⟨hflag, hbound, hcount⟩ := flagged_spec hagrees.1
  refine hmove ⟨hflag, fun hreader => ?_⟩ ?_ ?_ ?_ ?_ ?_
  · rw [hcount]
    exact hsensible.2.2 hreader
  · intro reads writing hreads hwriting
    obtain rfl : reads = total RwThread.reads s.control := Nat.add_right_cancel hreads
    obtain rfl : writing = total RwThread.writing s.control := Nat.add_right_cancel hwriting
    refine ⟨hbound, fun hzero => ?_, ?_⟩
    · exact absurd (hagrees.2.1 (by rw [← hcount]; exact hzero)) hsensible.1
    · rw [hcount]
      exact hagrees.2.2
  · intro counted hcounted
    obtain rfl := Nat.add_right_cancel hcounted
    exact h.count
  · intro stale sleeping hstale hsleeping hpos hsleep
    exact hflag
  · intro sleeping waking attending hsleeping hwaking hattending hsleep
    refine Or.inl ?_
    dsimp only
    omega
  · intro sleeping writing wakingAll hsleeping hwriting hwakingAll hsleep
    obtain rfl : writing = total RwThread.writing s.control := Nat.add_right_cancel hwriting
    simp [RwThread.go] at hsleeping hwakingAll
    have hreaders := hreaders (by omega)
    omega

/-- The threads that are counted are not more than there are. -/
theorem counted_le_card (control : T → RwThread) (t : T) (c : RwThread) :
    sumAt RwPoint.counted control + c.point.counted ≤
      Fintype.card T + (control t).point.counted := by
  have hle : sumAt RwPoint.counted (Function.update control t c) ≤ Fintype.card T := by
    refine total_le_card (fun c => ?_) _
    cases c.point <;> simp
  have hsum := total_update (fun c : RwThread => c.point.counted) control t c
  unfold sumAt at hle ⊢
  omega

/-- The access that counts a waiter. -/
theorem RwInv.counts {s : FutexState RwMemory RwThread T} (h : RwInv s)
    (hcard : Fintype.card T < 0x100000000) {t : T} {writer : Bool} {r : Nat}
    (hpoint : (s.control t).point = .count writer r) :
    RwInv ⟨{ s.memory with waiters := (s.memory.waiters + 1) % 0x100000000 },
      Function.update s.control t ((s.control t).go (.mark writer r))⟩ := by
  have hcount := h.count
  have hfresh := h.fresh
  have hattended := h.attended
  have hreaders := h.readers
  have hsensible := h.sensible t
  have hroom := counted_le_card s.control t ((s.control t).go (.mark writer r))
  have hmove := @RwInv.move T _ _ s h t
  unfold RwThread.Sensible at hsensible
  rw [hpoint] at hsensible hmove hroom
  refine hmove hsensible ?_ ?_ ?_ ?_ ?_
  · intro reads writing hreads hwriting
    obtain rfl : reads = total RwThread.reads s.control := Nat.add_right_cancel hreads
    obtain rfl : writing = total RwThread.writing s.control := Nat.add_right_cancel hwriting
    exact h.agrees
  · intro counted hcounted
    simp [RwThread.go] at hcounted hroom
    rw [hcount, hcounted]
    exact Nat.mod_eq_of_lt (by omega)
  · intro stale sleeping hstale hsleeping hpos hsleep
    obtain rfl := Nat.add_right_cancel hstale
    obtain rfl := Nat.add_right_cancel hsleeping
    exact hfresh hpos hsleep
  · intro sleeping waking attending hsleeping hwaking hattending hsleep
    obtain rfl := Nat.add_right_cancel hsleeping
    obtain rfl := Nat.add_right_cancel hwaking
    obtain rfl := Nat.add_right_cancel hattending
    exact hattended hsleep
  · intro sleeping writing wakingAll hsleeping hwriting hwakingAll hsleep
    obtain rfl := Nat.add_right_cancel hsleeping
    obtain rfl : writing = total RwThread.writing s.control := Nat.add_right_cancel hwriting
    obtain rfl := Nat.add_right_cancel hwakingAll
    exact hreaders hsleep

/-- What follows the wait, which keeps the attention of a thread that was woken. -/
theorem RwPoint.after_leave (writer : Bool) (r : Option Nat) (reads : Nat) (writes : Bool) :
    (RwThread.mk reads writes (r.elim (.retry writer) .done)).Sensible ∧
      ∀ weight : RwPoint → Nat,
        weight = counted ∨ weight = stale ∨ weight = sleeping ∨ weight = sleepingReader ∨
          weight = waking ∨ weight = wakingAll → weight (r.elim (.retry writer) .done) = 0 := by
  cases r with
  | none =>
      cases writer with
      | true => exact ⟨trivial, by rintro weight (rfl | rfl | rfl | rfl | rfl | rfl) <;> rfl⟩
      | false => exact ⟨trivial, by rintro weight (rfl | rfl | rfl | rfl | rfl | rfl) <;> rfl⟩
  | some r => exact ⟨trivial, by rintro weight (rfl | rfl | rfl | rfl | rfl | rfl) <;> rfl⟩

theorem RwPoint.attending_leave (writer : Bool) (r : Option Nat) :
    attending (r.elim (.retry writer) .done) = attending (.leave writer r) := by
  cases r with
  | none => cases writer <;> rfl
  | some r => rfl

/-- The access that counts a waiter no more. -/
theorem RwInv.leaves {s : FutexState RwMemory RwThread T} (h : RwInv s)
    (hcard : Fintype.card T < 0x100000000) {t : T} {writer : Bool} {r : Option Nat}
    (hpoint : (s.control t).point = .leave writer r) :
    RwInv ⟨{ s.memory with waiters := (s.memory.waiters + 0xffffffff) % 0x100000000 },
      Function.update s.control t ((s.control t).go (r.elim (.retry writer) .done))⟩ := by
  have hcount := h.count
  have hroom := counted_le_card s.control t (s.control t)
  have hold := le_total (fun c : RwThread => c.point.counted) s.control t
  have hmove := @RwInv.move T _ _ s h t
  obtain ⟨hsensible, hzero⟩ :=
    RwPoint.after_leave writer r (s.control t).reads (s.control t).writes
  have hattending := RwPoint.attending_leave writer r
  rw [hpoint] at hmove hold
  refine hmove hsensible ?_ ?_ ?_ ?_ ?_
  · intro reads writing hreads hwriting
    obtain rfl : reads = total RwThread.reads s.control := Nat.add_right_cancel hreads
    obtain rfl : writing = total RwThread.writing s.control := Nat.add_right_cancel hwriting
    exact h.agrees
  · intro counted hcounted
    rw [show ((s.control t).go (r.elim (.retry writer) .done)).point.counted = 0 from
      hzero _ (by simp)] at hcounted
    simp at hcounted hold
    rw [hcount, ← hcounted, Nat.add_assoc]
    simp
    unfold sumAt at *
    omega
  · intro stale sleeping hstale hsleeping hpos hsleep
    rw [show ((s.control t).go (r.elim (.retry writer) .done)).point.stale = 0 from
      hzero _ (by simp)] at hstale
    rw [show ((s.control t).go (r.elim (.retry writer) .done)).point.sleeping = 0 from
      hzero _ (by simp)] at hsleeping
    obtain rfl := Nat.add_right_cancel hstale
    obtain rfl := Nat.add_right_cancel hsleeping
    exact h.fresh hpos hsleep
  · intro sleeping waking attending hsleeping hwaking hattending' hsleep
    rw [show ((s.control t).go (r.elim (.retry writer) .done)).point.sleeping = 0 from
      hzero _ (by simp)] at hsleeping
    rw [show ((s.control t).go (r.elim (.retry writer) .done)).point.waking = 0 from
      hzero _ (by simp)] at hwaking
    obtain rfl := Nat.add_right_cancel hsleeping
    obtain rfl := Nat.add_right_cancel hwaking
    obtain rfl : attending = sumAt RwPoint.attending s.control :=
      Nat.add_right_cancel (hattending'.trans (congrArg _ hattending))
    exact h.attended hsleep
  · intro sleeping writing wakingAll hsleeping hwriting hwakingAll hsleep
    rw [show ((s.control t).go (r.elim (.retry writer) .done)).point.sleepingReader = 0 from
      hzero _ (by simp)] at hsleeping
    rw [show ((s.control t).go (r.elim (.retry writer) .done)).point.wakingAll = 0 from
      hzero _ (by simp)] at hwakingAll
    obtain rfl := Nat.add_right_cancel hsleeping
    obtain rfl : writing = total RwThread.writing s.control := Nat.add_right_cancel hwriting
    obtain rfl := Nat.add_right_cancel hwakingAll
    exact h.readers hsleep

theorem rwReleased_spec {val : Nat} (hval : val < 0x100000000) (hpos : val % 0x80000000 ≠ 0) :
    (val % 0x80000000 = 0x7fffffff ∨ val % 0x80000000 = 1) ∧ rwReleased val = 0 ∨
      (val % 0x80000000 ≠ 0x7fffffff ∧ val % 0x80000000 ≠ 1) ∧ rwReleased val + 1 = val := by
  unfold rwReleased
  split <;> omega

omit [Fintype T] [DecidableEq T] in
/-- What `__pthread_rwlock_unlock` takes from the thread that calls it. -/
theorem RwThread.release_spec {c : RwThread} {val reads writing : Nat}
    (hagrees : RwAgrees val reads writing) (hreads : c.reads ≤ reads)
    (hwriting : c.writing ≤ writing) (hheld : 0 < c.reads ∨ c.writes = true) :
    (val % 0x80000000 = 0x7fffffff ∧ (c.release val).reads = c.reads ∧
        (c.release val).writing + 1 = c.writing ∨
      val % 0x80000000 ≠ 0x7fffffff ∧ (c.release val).reads + 1 = c.reads ∧
        (c.release val).writing = c.writing) := by
  unfold RwAgrees at hagrees
  unfold RwThread.release
  split
  · rename_i hwriter
    refine Or.inl ⟨hwriter, rfl, ?_⟩
    rcases hheld with hpos | hwrites
    · omega
    · simp [RwThread.writing, hwrites]
  · rename_i hreader
    refine Or.inr ⟨hreader, ?_, rfl⟩
    rcases hheld with hpos | hwrites
    · exact Nat.sub_add_cancel hpos
    · simp only [RwThread.writing, hwrites, if_true] at hwriting
      omega

/-- The word and the sums after the lock has been given back. -/
theorem RwAgrees.release {lock reads writing reads' writing' r w r' w' : Nat}
    (h : RwAgrees lock reads writing) (hpos : lock ≠ 0)
    (hrelease : lock % 0x80000000 = 0x7fffffff ∧ r' = r ∧ w' + 1 = w ∨
      lock % 0x80000000 ≠ 0x7fffffff ∧ r' + 1 = r ∧ w' = w)
    (hreads : reads' + r = reads + r') (hwriting : writing' + w = writing + w') :
    RwAgrees (rwReleased lock) reads' writing' := by
  have hspec := rwReleased_spec h.1 (fun hzero => hpos (h.2.1 hzero))
  unfold RwAgrees at h ⊢
  rcases hrelease with ⟨hwriter, rfl, hw⟩ | ⟨hreader, hr, rfl⟩
  · rcases hspec with ⟨-, hspec⟩ | ⟨hne, -⟩
    · rw [hspec]
      omega
    · exact absurd hwriter hne.1
  · rcases hspec with ⟨hone, hspec⟩ | ⟨hne, hspec⟩
    · rw [hspec]
      omega
    · omega

/-- Where the thread goes from there: it wakes others, or is done. -/
theorem RwPoint.after_swap (wakes : Prop) [Decidable wakes] (cnt : Nat) :
    ∃ point : RwPoint, (if wakes then .wake cnt else .done 0) = point ∧
      (∀ reads writes, (RwThread.mk reads writes point).Sensible) ∧ point.counted = 0 ∧
      point.stale = 0 ∧ point.sleeping = 0 ∧ point.sleepingReader = 0 ∧ point.attending = 0 ∧
      (wakes → point.waking = 1 ∧ (cnt = 0x7fffffff → point.wakingAll = 1)) := by
  refine ⟨_, rfl, ?_⟩
  split
  · rename_i hwakes
    refine ⟨fun _ _ => trivial, rfl, rfl, rfl, rfl, rfl, fun _ => ⟨rfl, fun hcnt => ?_⟩⟩
    rw [hcnt]
    rfl
  · rename_i hwakes
    exact ⟨fun _ _ => trivial, rfl, rfl, rfl, rfl, rfl, fun h => absurd h hwakes⟩

/-- The access that gives the lock back. -/
theorem RwInv.releases {s : FutexState RwMemory RwThread T} (h : RwInv s) {t : T} {waiters : Nat}
    (hpoint : (s.control t).point = .swap s.memory.lock waiters) :
    RwInv ⟨{ s.memory with lock := rwReleased s.memory.lock }, Function.update s.control t
      (((s.control t).release s.memory.lock).go <|
        if rwReleased s.memory.lock = 0 ∧ (waiters ≠ 0 ∨ 0x80000000 ≤ s.memory.lock) then
          .wake (s.memory.lock % 0x80000000) else .done 0)⟩ := by
  have hagrees := h.agrees
  have hfresh := h.fresh
  have hattended := h.attended
  have hreaders := h.readers
  have hsleepers := sleepingReader_le s.control
  have hsensible := h.sensible t
  have hreads := le_total RwThread.reads s.control t
  have hwriting := le_total RwThread.writing s.control t
  unfold RwThread.Sensible at hsensible
  rw [hpoint] at hsensible
  have hpos : s.memory.lock ≠ 0 := by
    refine hagrees.pos ?_
    rcases hsensible with hread | hwrites
    · exact Or.inl (by omega)
    · simp only [RwThread.writing, hwrites, if_true] at hwriting
      exact Or.inr hwriting
  have hspec := rwReleased_spec hagrees.1 (fun hzero => hpos (hagrees.2.1 hzero))
  have hrelease := RwThread.release_spec hagrees hreads hwriting hsensible
  -- nobody sleeps who was not seen
  have hquiet : waiters = 0 → s.memory.lock < 0x80000000 →
      sumAt RwPoint.sleeping s.control = 0 := fun hnone hclear => by
    have hstale := le_sumAt RwPoint.stale s.control t
    have hone : RwPoint.stale (.swap s.memory.lock waiters) = 1 := by simp [hnone, hclear]
    rw [hpoint, hone] at hstale
    by_contra hne
    have := hfresh hstale (Nat.pos_of_ne_zero hne)
    omega
  obtain ⟨point, hafter, hkind, hcounted, hstale, hsleeping, hreader, hattending, hwakes⟩ :=
    RwPoint.after_swap
      (rwReleased s.memory.lock = 0 ∧ (waiters ≠ 0 ∨ 0x80000000 ≤ s.memory.lock))
      (s.memory.lock % 0x80000000)
  rw [hafter]
  have hmove := @RwInv.move T _ _ s h t { s.memory with lock := rwReleased s.memory.lock }
    (((s.control t).release s.memory.lock).go point)
  rw [hpoint, show (((s.control t).release s.memory.lock).go point).point = point from rfl,
    show (((s.control t).release s.memory.lock).go point).reads =
      ((s.control t).release s.memory.lock).reads from rfl,
    show (((s.control t).release s.memory.lock).go point).writing =
      ((s.control t).release s.memory.lock).writing from rfl,
    hcounted, hstale, hsleeping, hreader, hattending] at hmove
  refine hmove (hkind _ _) ?_ ?_ ?_ ?_ ?_
  · intro reads writing hreads hwriting
    exact hagrees.release hpos hrelease hreads hwriting
  · intro counted hcounted
    obtain rfl := Nat.add_right_cancel hcounted
    exact h.count
  · intro stale sleeping hstales hsleeping hstill hsleep
    have hgone := @stale_le T _
      (Function.update s.control t (((s.control t).release s.memory.lock).go point))
      ((Function.forall_update_iff s.control fun _ c => c.Sensible).mpr
        ⟨hkind _ _, fun u _ => h.sensible u⟩)
    have hafter := hagrees.release hpos hrelease
      (total_update RwThread.reads s.control t (((s.control t).release s.memory.lock).go point))
      (total_update RwThread.writing s.control t (((s.control t).release s.memory.lock).go point))
    have hstale' := total_update (fun c : RwThread => c.point.stale) s.control t
      (((s.control t).release s.memory.lock).go point)
    dsimp only at hstale' ⊢
    rw [show (((s.control t).release s.memory.lock).go point).point = point from rfl, hpoint,
      hstale] at hstale'
    obtain rfl : sleeping = _ := Nat.add_right_cancel hsleeping
    rcases hspec with ⟨-, hzero⟩ | ⟨hne, hless⟩
    · rw [hzero] at hafter
      have hnone := hafter.2.2
      unfold sumAt at hstales hgone
      clear hrelease
      omega
    · have hflag := hfresh (by clear hrelease hafter; omega) hsleep
      have hcount := hagrees.2.1
      clear hrelease hafter
      omega
  · intro sleeping waking attending hsleeping hwaking hattending hsleep
    obtain rfl : sleeping = _ := Nat.add_right_cancel hsleeping
    clear hrelease
    rcases hspec with ⟨-, hzero⟩ | ⟨hne, hless⟩
    · by_cases hcall : waiters ≠ 0 ∨ 0x80000000 ≤ s.memory.lock
      · rw [(hwakes ⟨hzero, hcall⟩).1] at hwaking
        exact Or.inr (Or.inl (Nat.lt_of_lt_of_eq (Nat.succ_pos _) hwaking.symm))
      · have hnone := hquiet (by omega) (by omega)
        omega
    · refine Or.inl ?_
      dsimp only
      have hcount := hagrees.2.1
      omega
  · intro sleeping writing wakingAll hsleeping hwriting hwakingAll hsleep
    obtain rfl : sleeping = _ := Nat.add_right_cancel hsleeping
    have hbefore := hreaders hsleep
    rcases hrelease with ⟨hwriter, -, hless⟩ | ⟨hreading, -, hsame⟩
    · refine Or.inr ?_
      obtain ⟨-, hzero⟩ | ⟨hne, -⟩ := hspec
      · by_cases hcall : waiters ≠ 0 ∨ 0x80000000 ≤ s.memory.lock
        · rw [(hwakes ⟨hzero, hcall⟩).2 hwriter] at hwakingAll
          exact Nat.lt_of_lt_of_eq (Nat.succ_pos _) hwakingAll.symm
        · have hnone := hquiet (by omega) (by omega)
          omega
      · exact absurd hwriter hne.1
    · unfold RwAgrees at hagrees
      have hzero : RwPoint.wakingAll (.swap s.memory.lock waiters) = 0 := rfl
      rw [hzero] at hwakingAll
      omega

/-- The accesses of `__timedwait`. -/
theorem RwInv.waits {s : FutexState RwMemory RwThread T} (h : RwInv s) {t : T} {writer : Bool}
    {r : Nat} {point : TimedPoint} {c : RwThread}
    (hpoint : (s.control t).point = .wait writer r point)
    (hsensible : 0x80000000 ≤ r ∧ (writer = false → r % 0x80000000 = 0x7fffffff))
    (hawake : point ≠ .asleep)
    (hcases : c = (s.control t).go (.leave writer none) ∨
      c = (s.control t).go (.leave writer (some ETIMEDOUT)) ∧ decide (s.memory.lock = r) = true ∨
      c = (s.control t).go (.wait writer r .entering) ∨
      c = (s.control t).go (.wait writer r .asleep) ∧ decide (s.memory.lock = r) = true) :
    RwInv ⟨s.memory, Function.update s.control t c⟩ := by
  have hzero : (RwPoint.wait writer r point).sleeping = 0 := by
    cases point with
    | asleep => exact absurd rfl hawake
    | _ => rfl
  have hreader : (RwPoint.wait writer r point).sleepingReader = 0 := by
    cases point with
    | asleep => exact absurd rfl hawake
    | _ => cases writer <;> rfl
  rcases hcases with rfl | ⟨rfl, -⟩ | rfl | ⟨rfl, hsame⟩
  · exact h.goes hpoint trivial ⟨rfl, rfl, rfl, hzero.symm, rfl, hreader.symm⟩
      (Or.inl (Nat.zero_le _))
  · exact h.goes hpoint trivial ⟨rfl, rfl, rfl, hzero.symm, rfl, hreader.symm⟩
      (Or.inl (Nat.zero_le _))
  · refine h.goes hpoint hsensible ⟨rfl, rfl, rfl, hzero.symm, rfl, ?_⟩ (Or.inl (Nat.zero_le _))
    rw [hreader]
    cases writer <;> rfl
  · obtain rfl := of_decide_eq_true hsame
    refine h.pass hsensible ?_ ?_ (Or.inr hsensible.1) (Or.inl (Nat.zero_le _)) ?_ ?_
    · rw [hpoint]
      rfl
    · rw [hpoint]
      exact ⟨rfl, rfl⟩
    · rw [hpoint]
      exact Or.inl (Nat.le_refl _)
    · cases writer with
      | true => exact Or.inl (Nat.zero_le _)
      | false => exact Or.inr (hsensible.2 rfl)

/-- A thread that looks at the lock goes back to its first attempt. -/
theorem RwInv.retry {s : FutexState RwMemory RwThread T} (h : RwInv s) {t : T} {now : RwPoint}
    (writer : Bool) (hnow : (s.control t).point = now)
    (hsame : now.counted = 0 ∧ now.waking = 0 ∧ now.wakingAll = 0 ∧ now.sleeping = 0 ∧
      now.stale = 0 ∧ now.sleepingReader = 0)
    (hattending : now.attending = 0) :
    RwInv ⟨s.memory, Function.update s.control t ((s.control t).go (.retry writer))⟩ := by
  obtain ⟨hcounted, hwaking, hall, hsleeping, hstale, hreader⟩ := hsame
  have hnone : now.attending ≤ (RwPoint.retry writer).attending :=
    hattending ▸ Nat.zero_le _
  cases writer
  all_goals exact h.goes hnow trivial ⟨hcounted.symm, hwaking.symm, hall.symm, hsleeping.symm,
    hstale.symm, hreader.symm⟩ (Or.inl hnone)

/-- `__pthread_rwlock_tryrdlock` has read the word. -/
theorem RwInv.tryRead {s : FutexState RwMemory RwThread T} (h : RwInv s) {t : T} {attempt : RwTry}
    (hpoint : (s.control t).point = .tryRead attempt) :
    RwInv ⟨s.memory, Function.update s.control t ((s.control t).go <|
      if s.memory.lock % 0x80000000 = 0x7fffffff then attempt.busy false
      else if s.memory.lock % 0x80000000 = 0x7ffffffe then .done EAGAIN
      else .casRead attempt s.memory.lock)⟩ := by
  have hagrees := h.agrees
  unfold RwAgrees at hagrees
  split
  · rename_i hwriter
    cases attempt
    all_goals exact h.goes hpoint trivial ⟨rfl, rfl, rfl, rfl, rfl, rfl⟩ (Or.inr (by omega))
  · split
    · rename_i hfull
      exact h.goes hpoint trivial ⟨rfl, rfl, rfl, rfl, rfl, rfl⟩ (Or.inr (by omega))
    · refine h.goes hpoint ⟨hagrees.1, ?_⟩ ⟨rfl, rfl, rfl, rfl, rfl, rfl⟩ (Or.inl ?_)
      · omega
      · cases attempt <;> exact Nat.le_refl _

/-- A thread has read the word in the main loop. -/
theorem RwInv.look {s : FutexState RwMemory RwThread T} (h : RwInv s) {t : T} {writer : Bool}
    (hpoint : (s.control t).point = .look writer) :
    RwInv ⟨s.memory, Function.update s.control t ((s.control t).go <|
      if s.memory.lock = 0 ∨ writer = false ∧ s.memory.lock % 0x80000000 ≠ 0x7fffffff then
        .retry writer
      else .count writer s.memory.lock)⟩ := by
  have hagrees := h.agrees
  unfold RwAgrees at hagrees
  split
  · exact h.retry writer hpoint ⟨rfl, rfl, rfl, rfl, rfl, rfl⟩ rfl
  · rename_i hcount
    refine h.goes hpoint ⟨?_, hagrees.1, ?_⟩ ⟨rfl, rfl, rfl, rfl, rfl, rfl⟩
      (Or.inl (Nat.zero_le _))
    · exact fun hzero => hcount (Or.inl hzero)
    · exact fun hreader => by_contra fun hne => hcount (Or.inr ⟨hreader, hne⟩)

/-- An access of a thread keeps the invariant. -/
theorem RwInv.run {s : FutexState RwMemory RwThread T} (h : RwInv s)
    (hcard : Fintype.card T < 0x100000000) {t : T} {m : RwMemory} {c : RwThread}
    (hrun : (s.control t).run s.memory = some (m, c)) :
    RwInv ⟨m, Function.update s.control t c⟩ := by
  have hsensible := h.sensible t
  unfold RwThread.Sensible at hsensible
  unfold RwThread.run at hrun
  cases hpoint : (s.control t).point with
  | done result | wake cnt =>
      rw [hpoint] at hrun
      cases hrun
  | tryRead attempt =>
      rw [hpoint] at hrun
      cases hrun
      exact h.tryRead hpoint
  | casRead attempt val =>
      rw [hpoint] at hrun
      simp only at hrun
      split at hrun
      · rename_i hsame
        cases hrun
        rw [← hsame]
        rw [← hsame] at hpoint
        exact h.takeRead hpoint
      · cases hrun
        refine h.goes hpoint trivial ⟨rfl, rfl, rfl, rfl, rfl, rfl⟩ (Or.inl ?_)
        cases attempt <;> exact Nat.le_refl _
  | tryWrite attempt =>
      rw [hpoint] at hrun
      simp only at hrun
      split at hrun
      · rename_i hfree
        cases hrun
        exact h.takeWrite hpoint hfree
      · rename_i htaken
        cases hrun
        cases attempt
        all_goals exact h.goes hpoint trivial ⟨rfl, rfl, rfl, rfl, rfl, rfl⟩ (Or.inr htaken)
  | spin writer spins =>
      rw [hpoint] at hrun
      cases hrun
      split
      · exact h.retry writer hpoint ⟨rfl, rfl, rfl, rfl, rfl, rfl⟩ rfl
      · exact h.goes hpoint trivial ⟨rfl, rfl, rfl, rfl, rfl, rfl⟩ (Or.inl (Nat.zero_le _))
  | spinWaiters writer spins =>
      rw [hpoint] at hrun
      cases hrun
      have hretry := h.retry writer hpoint ⟨rfl, rfl, rfl, rfl, rfl, rfl⟩ rfl
      split
      · exact hretry
      · cases spins with
        | zero => exact hretry
        | succ spins =>
            exact h.goes hpoint trivial ⟨rfl, rfl, rfl, rfl, rfl, rfl⟩ (Or.inl (Nat.zero_le _))
  | look writer =>
      rw [hpoint] at hrun
      cases hrun
      exact h.look hpoint
  | count writer r =>
      rw [hpoint] at hrun
      cases hrun
      exact h.counts hcard hpoint
  | mark writer r =>
      rw [hpoint] at hrun hsensible
      cases hrun
      split
      · rename_i hsame
        subst hsame
        exact h.mark hpoint
      · obtain ⟨hflag, -, hcount⟩ := flagged_spec hsensible.2.1
        refine h.goes hpoint ⟨hflag, fun hreader => ?_⟩ ⟨rfl, rfl, rfl, rfl, rfl, ?_⟩
          (Or.inl (Nat.zero_le _))
        · rw [hcount]
          exact hsensible.2.2 hreader
        · cases writer <;> rfl
  | wait writer r point =>
      rw [hpoint] at hrun hsensible
      obtain ⟨c', hturn, hc⟩ := Option.map_eq_some_iff.mp hrun
      cases hc
      obtain ⟨hawake, hcases⟩ := TimedPoint.turn_cases hturn
      exact h.waits hpoint hsensible hawake hcases
  | leave writer r =>
      rw [hpoint] at hrun
      cases hrun
      exact h.leaves hcard hpoint
  | unlock =>
      rw [hpoint] at hrun hsensible
      cases hrun
      exact h.goes hpoint hsensible ⟨rfl, rfl, rfl, rfl, rfl, rfl⟩ (Or.inl (Nat.zero_le _))
  | unlockWaiters val =>
      rw [hpoint] at hrun hsensible
      cases hrun
      refine h.notes hpoint hsensible ⟨rfl, rfl, rfl, rfl, rfl⟩ ?_ (Or.inl (Nat.zero_le _))
      by_cases hnone : s.memory.waiters = 0
      · exact Or.inr hnone
      · exact Or.inl (by simp [hnone])
  | swap val waiters =>
      rw [hpoint] at hrun hsensible
      simp only at hrun
      split at hrun
      · rename_i hsame
        cases hrun
        rw [← hsame]
        rw [← hsame] at hpoint
        exact h.releases hpoint
      · cases hrun
        exact h.notes hpoint hsensible ⟨rfl, rfl, rfl, rfl, rfl⟩ (Or.inl (Nat.zero_le _))
          (Or.inl (Nat.zero_le _))

/-- The calls of a thread that is done, and a wait that ends before it has begun. -/
theorem RwInv.calls {s : FutexState RwMemory RwThread T} (h : RwInv s) {t : T} {c : RwThread}
    (hcall : (s.control t).Calls c) : RwInv ⟨s.memory, Function.update s.control t c⟩ := by
  obtain ⟨hc, hcalls⟩ := hcall
  rw [hc]
  have hsensible := h.sensible t
  unfold RwThread.Sensible at hsensible
  generalize hnow : (s.control t).point = now at hcalls hsensible
  generalize c.point = point at hcalls
  unfold RwPoint.calls at hcalls
  split at hcalls
  · exact h.goes hnow trivial ⟨rfl, rfl, rfl, rfl, rfl, rfl⟩ (Or.inl (Nat.zero_le _))
  · exact h.goes hnow trivial ⟨rfl, rfl, rfl, rfl, rfl, rfl⟩ (Or.inl (Nat.zero_le _))
  · refine h.goes hnow ?_ ⟨rfl, rfl, rfl, rfl, rfl, rfl⟩ (Or.inl (Nat.zero_le _))
    simpa [RwThread.Sensible, RwThread.go] using hcalls
  · refine h.goes hnow trivial ⟨rfl, rfl, rfl, rfl, rfl, ?_⟩ (Or.inl (Nat.zero_le _))
    rename_i writer _ _ _
    cases writer <;> rfl
  · cases hcalls

omit [Fintype T] [DecidableEq T] in
/-- What `asleep` says of the point. -/
theorem RwThread.asleep_iff {c : RwThread} :
    c.asleep = true ↔ ∃ writer r, c.point = .wait writer r .asleep := by
  unfold RwThread.asleep
  constructor
  · intro hasleep
    split at hasleep
    · rename_i writer r hpoint
      exact ⟨writer, r, hpoint⟩
    · cases hasleep
  · rintro ⟨writer, r, hpoint⟩
    rw [hpoint]

omit [Fintype T] [DecidableEq T] in
theorem RwThread.sleeping_of_awake {c : RwThread} (hawake : c.asleep = false) :
    c.point.sleeping = 0 := by
  obtain ⟨reads, writes, point⟩ := c
  cases point with
  | wait writer r point =>
      cases point with
      | asleep => cases hawake
      | _ => rfl
  | _ => rfl

/-- A thread is let go, by the host or by a thread that wakes it. -/
theorem RwInv.awakes {s : FutexState RwMemory RwThread T} (h : RwInv s) {t : T}
    {writer : Bool} {r : Nat} {point : RwPoint}
    (hnow : (s.control t).point = .wait writer r .asleep)
    (hpoint : point = .leave writer none ∨ point = .wait writer r .stirred) :
    RwInv ⟨s.memory, Function.update s.control t ((s.control t).go point)⟩ := by
  have hsensible := h.sensible t
  unfold RwThread.Sensible at hsensible
  rw [hnow] at hsensible
  rcases hpoint with rfl | rfl
  · refine h.pass trivial ?_ ?_ (Or.inl (Nat.zero_le _)) (Or.inl (Nat.zero_le _)) (Or.inl ?_)
      (Or.inl (Nat.zero_le _))
    all_goals rw [hnow]
    · rfl
    · exact ⟨rfl, rfl⟩
    · exact Nat.zero_le _
  · refine h.pass hsensible ?_ ?_ (Or.inl (Nat.zero_le _)) (Or.inl (Nat.zero_le _)) (Or.inl ?_)
      (Or.inl ?_)
    all_goals rw [hnow]
    · rfl
    · exact ⟨rfl, rfl⟩
    · exact Nat.le_refl _
    · cases writer <;> exact Nat.zero_le _

/-- The host does not let a thread sleep. -/
theorem RwInv.refuse {s : FutexState RwMemory RwThread T} (h : RwInv s) {t : T} {c : RwThread}
    (hrefused : (s.control t).refused s.memory = some c) :
    RwInv ⟨s.memory, Function.update s.control t c⟩ := by
  unfold RwThread.refused at hrefused
  split at hrefused
  · rename_i writer r point hpoint
    obtain ⟨rfl, -, rfl⟩ := TimedPoint.refused_cases hrefused
    have hsensible := h.sensible t
    unfold RwThread.Sensible at hsensible
    rw [hpoint] at hsensible
    exact h.waits hpoint hsensible (by simp) (Or.inl rfl)
  · cases hrefused

/-- A thread has called `__wake`: one of those that slept goes on, or none sleeps. -/
theorem RwInv.woken {s : FutexState RwMemory RwThread T} (h : RwInv s) {t : T} {cnt : Nat}
    (hpoint : (s.control t).point = .wake cnt)
    (hwoken : sumAt RwPoint.sleeping s.control = 0 ∨
      cnt ≠ 0x7fffffff ∧ 0 < sumAt RwPoint.attending s.control) :
    RwInv ⟨s.memory, Function.update s.control t ((s.control t).go (.done 0))⟩ := by
  have hsleepers := sleepingReader_le s.control
  have hmove := @RwInv.move T _ _ s h t s.memory ((s.control t).go (.done 0))
  rw [hpoint] at hmove
  refine hmove trivial ?_ ?_ ?_ ?_ ?_
  · intro reads writing hreads hwriting
    obtain rfl : reads = total RwThread.reads s.control := Nat.add_right_cancel hreads
    obtain rfl : writing = total RwThread.writing s.control := Nat.add_right_cancel hwriting
    exact h.agrees
  · intro counted hcounted
    obtain rfl := Nat.add_right_cancel hcounted
    exact h.count
  · intro stale sleeping hstale hsleeping hpos hsleep
    obtain rfl := Nat.add_right_cancel hstale
    obtain rfl := Nat.add_right_cancel hsleeping
    exact h.fresh hpos hsleep
  · intro sleeping waking attending hsleeping hwaking hattending' hsleep
    obtain rfl := Nat.add_right_cancel hsleeping
    obtain rfl := Nat.add_right_cancel hattending'
    rcases hwoken with hnone | ⟨-, hattending⟩
    · exact absurd hnone (Nat.pos_iff_ne_zero.mp hsleep)
    · exact Or.inr (Or.inr hattending)
  · intro sleeping writing wakingAll hsleeping hwriting hwakingAll hsleep
    obtain rfl := Nat.add_right_cancel hsleeping
    obtain rfl : writing = total RwThread.writing s.control := Nat.add_right_cancel hwriting
    rcases hwoken with hnone | ⟨hcnt, -⟩
    · omega
    · have hzero : RwPoint.wakingAll (.wake cnt) = 0 := by simp [hcnt]
      rw [hzero] at hwakingAll
      obtain rfl := Nat.add_right_cancel hwakingAll
      exact h.readers hsleep

omit [DecidableEq T] in
/-- All that sleep are woken. -/
theorem RwInv.rouseAll {s : FutexState RwMemory RwThread T} (h : RwInv s) (waker : RwThread) :
    RwInv ⟨s.memory, rouseAll rwLock waker s.control⟩ ∧
      sumAt RwPoint.sleeping (FutexThreads.rouseAll rwLock waker s.control) = 0 := by
  have hroused : ∀ c : RwThread, c.asleep = true →
      ∃ writer r, c.point = .wait writer r .asleep ∧ c.roused = c.go (.leave writer none) := by
    intro c hc
    obtain ⟨writer, r, hpoint⟩ := RwThread.asleep_iff.mp hc
    refine ⟨writer, r, hpoint, ?_⟩
    unfold RwThread.roused
    rw [hpoint]
  have hsame : ∀ weight : RwThread → Nat,
      (∀ c : RwThread, ∀ writer r, c.point = .wait writer r .asleep →
        weight (c.go (.leave writer none)) = weight c) →
      total weight (FutexThreads.rouseAll rwLock waker s.control) = total weight s.control := by
    intro weight hweight
    refine total_rouseAll (fun c hc => ?_) _
    obtain ⟨writer, r, hpoint, hr⟩ := hroused c hc
    exact (congrArg weight hr).trans (hweight c writer r hpoint)
  have hnone : sumAt RwPoint.sleeping (FutexThreads.rouseAll rwLock waker s.control) = 0 := by
    refine total_rouseAll_eq_zero (fun c hc => ?_) (fun c hc => ?_) _
    · exact RwThread.sleeping_of_awake hc
    · obtain ⟨writer, r, hpoint, hr⟩ := hroused c hc
      have hleave : (rwLock (T := T)).roused c = c.go (.leave writer none) := hr
      rw [hleave]
      rfl
  have hreaders := sleepingReader_le (FutexThreads.rouseAll rwLock waker s.control)
  refine ⟨⟨?_, ?_, ?_, ?_, ?_, ?_⟩, hnone⟩
  · rw [hsame RwThread.reads (fun _ _ _ _ => rfl), hsame RwThread.writing (fun _ _ _ _ => rfl)]
    exact h.agrees
  · refine h.count.trans (hsame _ fun c writer r hpoint => ?_).symm
    rw [hpoint]
    rfl
  · intro t
    show (FutexThreads.rouseAll rwLock waker s.control t).Sensible
    unfold FutexThreads.rouseAll
    split
    · rename_i hasleep
      obtain ⟨writer, r, hpoint, hr⟩ := hroused _ hasleep
      have hleave : (rwLock (T := T)).roused (s.control t) =
          (s.control t).go (.leave writer none) :=
        hr
      rw [hleave]
      exact trivial
    · exact h.sensible t
  · rw [hnone]
    exact fun _ hpos => absurd hpos (Nat.lt_irrefl 0)
  · rw [hnone]
    exact fun hpos => absurd hpos (Nat.lt_irrefl 0)
  · intro hpos
    dsimp only at hpos
    omega

omit [Fintype T] [DecidableEq T] in
theorem rwLock_wakes {c c' : RwThread} {wake : Wake}
    (hwakes : (rwLock : FutexProgram RwMemory RwThread T).wakes c = some (wake, c')) :
    ∃ cnt, c.point = .wake cnt ∧ wake = (if cnt = 0x7fffffff then .all else .one) ∧
      c' = c.go (.done 0) := by
  simp only [rwLock] at hwakes
  split at hwakes
  · rename_i cnt hpoint
    cases hwakes
    exact ⟨cnt, hpoint, rfl, rfl⟩
  · cases hwakes

/-- Every step keeps the invariant. -/
theorem RwInv.step (hcard : Fintype.card T < 0x100000000) {s s' : FutexState RwMemory RwThread T}
    {t : T} (hstep : FutexThreads.Step rwLock s t s') (h : RwInv s) : RwInv s' := by
  cases hstep with
  | run hrun => exact h.run hcard hrun
  | call hcall => exact h.calls hcall
  | stir hasleep hc =>
      obtain ⟨writer, r, hpoint⟩ := RwThread.asleep_iff.mp hasleep
      rcases hc with rfl | rfl
      · have hstirred : (s.control t).stirred = (s.control t).go (.wait writer r .stirred) := by
          unfold RwThread.stirred
          rw [hpoint]
        have hnext := h.awakes hpoint (Or.inr rfl)
        rw [← hstirred] at hnext
        exact hnext
      · have hroused : (s.control t).roused = (s.control t).go (.leave writer none) := by
          unfold RwThread.roused
          rw [hpoint]
        have hnext := h.awakes hpoint (Or.inl rfl)
        rw [← hroused] at hnext
        exact hnext
  | refuse hrefused => exact h.refuse hrefused
  | @wakeOne sleeper c hwakes hne hasleep =>
      obtain ⟨cnt, hpoint, hkind, rfl⟩ := rwLock_wakes hwakes
      obtain ⟨writer, r, hsleeper⟩ := RwThread.asleep_iff.mp hasleep
      have hroused : (s.control sleeper).roused = (s.control sleeper).go (.leave writer none) := by
        unfold RwThread.roused
        rw [hsleeper]
      have hnext := h.awakes hsleeper (Or.inl rfl)
      have hattending := le_sumAt RwPoint.attending
        (Function.update s.control sleeper ((s.control sleeper).go (.leave writer none))) sleeper
      rw [Function.update_self] at hattending
      rw [← hroused] at hnext hattending
      have hsame : Function.update s.control sleeper (s.control sleeper).roused t = s.control t :=
        Function.update_of_ne (Ne.symm hne) _ _
      have hlast := @RwInv.woken T _ _ _ hnext t cnt (by dsimp only; rw [hsame]; exact hpoint)
        (Or.inr ⟨fun hall => by simp [hall] at hkind, ?_⟩)
      · dsimp only at hlast
        rw [hsame] at hlast
        exact hlast
      · rw [hroused] at hattending ⊢
        exact hattending
  | @wakeNone c hwakes hnone =>
      obtain ⟨cnt, hpoint, -, rfl⟩ := rwLock_wakes hwakes
      exact h.woken hpoint (Or.inl (Finset.sum_eq_zero fun u _ =>
        RwThread.sleeping_of_awake (hnone u)))
  | @wakeAll c hwakes =>
      obtain ⟨cnt, hpoint, -, rfl⟩ := rwLock_wakes hwakes
      obtain ⟨hroused, hnone⟩ := h.rouseAll (s.control t)
      have hsame : FutexThreads.rouseAll rwLock (s.control t) s.control t = s.control t := by
        have hawake : (s.control t).asleep = false := by
          unfold RwThread.asleep
          rw [hpoint]
        unfold FutexThreads.rouseAll
        exact if_neg fun h => by
          rw [show (s.control t).asleep = true from h] at hawake
          cases hawake
      have hlast := @RwInv.woken T _ _ _ hroused t cnt (by dsimp only; rw [hsame]; exact hpoint)
        (Or.inl hnone)
      dsimp only at hlast
      rw [hsame] at hlast
      exact hlast

theorem rwInit_reaches {s : FutexState RwMemory RwThread T} {labels : List T}
    (hcard : Fintype.card T < 0x100000000)
    (hrun : Run (FutexThreads.Step rwLock) rwInit labels s) : RwInv s :=
  hrun.preserves (fun h hstep => h.step hcard hstep) rwInit_inv

/-- A thread that has the lock for writing is the only one that has it, and the count in the
word is that of the locks for reading, which never reaches the value that stands for a writer. -/
theorem rwLock_exclusive {s : FutexState RwMemory RwThread T} {labels : List T}
    (hcard : Fintype.card T < 0x100000000)
    (hrun : Run (FutexThreads.Step rwLock) rwInit labels s) :
    (∀ t u, (s.control t).writes = true →
      (s.control u).reads = 0 ∧ ((s.control u).writes = true → u = t)) ∧
    total RwThread.reads s.control ≤ 0x7ffffffe ∧
    s.memory.lock % 0x80000000 =
      (if ∃ t, (s.control t).writes = true then 0x7fffffff
        else total RwThread.reads s.control) := by
  have hagrees := (rwInit_reaches hcard hrun).agrees
  have hwriting : ∀ t, (s.control t).writes = true → 0 < total RwThread.writing s.control := by
    intro t ht
    refine total_pos_iff.mpr ⟨t, ?_⟩
    simp [ht]
  unfold RwAgrees at hagrees
  refine ⟨fun t u ht => ⟨?_, fun hu => ?_⟩, by omega, ?_⟩
  · have hpos := hwriting t ht
    have hreads := le_total RwThread.reads s.control u
    omega
  · by_contra hne
    have htwo := add_le_total RwThread.writing s.control hne
    simp only [RwThread.writing, ht, hu, if_true] at htwo
    omega
  · split
    · rename_i hwriter
      obtain ⟨t, ht⟩ := hwriter
      have hpos := hwriting t ht
      omega
    · rename_i hnone
      have hzero : total RwThread.writing s.control = 0 := by
        refine Finset.sum_eq_zero fun t _ => ?_
        rw [RwThread.writing, if_neg fun ht => hnone ⟨t, ht⟩]
      omega

omit [Fintype T] [DecidableEq T] in
/-- A thread that was woken takes a lock that is free. -/
theorem RwThread.attending_alone {t : T} {m : RwMemory} {c : RwThread} (hfree : m.lock = 0)
    (hattending : 0 < c.point.attending) :
    ∃ n ≤ 3, ∃ m' c', rwLock.alone t n m c = some (m', c') ∧ c'.point = .done 0 ∧
      (c'.reads = c.reads + 1 ∨ c'.writes = true) := by
  obtain ⟨reads, writes, point⟩ := c
  have hwrite : ∀ waiters, rwLock.alone t 1 ⟨0, waiters⟩ ⟨reads, writes, .tryWrite .again⟩ =
      some (⟨0x7fffffff, waiters⟩, ⟨reads, true, .done 0⟩) := fun _ => by
    simp [FutexProgram.alone, rwLock, RwThread.run]
  have htake : ∀ waiters, rwLock.alone t 1 ⟨0, waiters⟩ ⟨reads, writes, .casRead .again 0⟩ =
      some (⟨1, waiters⟩, ⟨reads + 1, writes, .done 0⟩) := fun _ => by
    simp [FutexProgram.alone, rwLock, RwThread.run]
  have htry : ∀ waiters, rwLock.alone t 1 ⟨0, waiters⟩ ⟨reads, writes, .tryRead .again⟩ =
      some (⟨0, waiters⟩, ⟨reads, writes, .casRead .again 0⟩) := fun _ => by
    simp [FutexProgram.alone, rwLock, RwThread.run, RwThread.go]
  have hread : ∀ waiters, rwLock.alone t 2 ⟨0, waiters⟩ ⟨reads, writes, .tryRead .again⟩ =
      some (⟨1, waiters⟩, ⟨reads + 1, writes, .done 0⟩) := fun waiters =>
    (FutexProgram.alone_add (htry waiters)).trans (htake waiters)
  obtain ⟨lock, waiters⟩ := m
  obtain rfl : lock = 0 := hfree
  cases point with
  | leave writer r =>
      cases r with
      | none =>
          have hleave : rwLock.alone t 1 ⟨0, waiters⟩ ⟨reads, writes, .leave writer none⟩ =
              some (⟨0, (waiters + 0xffffffff) % 0x100000000⟩,
                ⟨reads, writes, .retry writer⟩) := by
            simp [FutexProgram.alone, rwLock, RwThread.run, RwThread.go]
          cases writer with
          | true =>
              exact ⟨1 + 1, by decide, _, _, (FutexProgram.alone_add hleave).trans (hwrite _), rfl,
                Or.inr rfl⟩
          | false =>
              exact ⟨1 + 2, by decide, _, _, (FutexProgram.alone_add hleave).trans (hread _), rfl,
                Or.inl rfl⟩
      | some r => exact absurd hattending (Nat.lt_irrefl 0)
  | tryRead attempt =>
      cases attempt with
      | again => exact ⟨2, by decide, _, _, hread _, rfl, Or.inl rfl⟩
      | _ => exact absurd hattending (Nat.lt_irrefl 0)
  | casRead attempt val =>
      cases attempt with
      | again =>
          by_cases hzero : val = 0
          · subst hzero
            exact ⟨1, by decide, _, _, htake _, rfl, Or.inl rfl⟩
          · have hfirst : rwLock.alone t 1 ⟨0, waiters⟩ ⟨reads, writes, .casRead .again val⟩ =
                some (⟨0, waiters⟩, ⟨reads, writes, .tryRead .again⟩) := by
              simp [FutexProgram.alone, rwLock, RwThread.run, RwThread.go, Ne.symm hzero]
            exact ⟨1 + 2, by decide, _, _,
              (FutexProgram.alone_add hfirst).trans (hread _), rfl, Or.inl rfl⟩
      | _ => exact absurd hattending (Nat.lt_irrefl 0)
  | tryWrite attempt =>
      cases attempt with
      | again => exact ⟨1, by decide, _, _, hwrite _, rfl, Or.inr rfl⟩
      | _ => exact absurd hattending (Nat.lt_irrefl 0)
  | _ => exact absurd hattending (Nat.lt_irrefl 0)

/-- No wake is lost.  While the lock is free, a thread sleeps only if a wake is still to come or
a thread that was woken takes the lock by itself; and readers do not sleep for the sake of
other readers, unless the wake of all is still to come. -/
theorem rwLock_progress {s : FutexState RwMemory RwThread T} {labels : List T}
    (hcard : Fintype.card T < 0x100000000)
    (hrun : Run (FutexThreads.Step rwLock) rwInit labels s) {t : T} {writer : Bool} {r : Nat}
    (hasleep : (s.control t).point = .wait writer r .asleep) :
    (s.memory.lock = 0 → (∃ u cnt, (s.control u).point = .wake cnt) ∨
      ∃ u, ∃ n ≤ 3, ∃ m c, rwLock.alone u n s.memory (s.control u) = some (m, c) ∧
        c.point = .done 0 ∧ (c.reads = (s.control u).reads + 1 ∨ c.writes = true)) ∧
    (writer = false → (∃ u, (s.control u).writes = true) ∨
      ∃ u, (s.control u).point = .wake 0x7fffffff) := by
  have h := rwInit_reaches hcard hrun
  refine ⟨fun hfree => ?_, fun hreader => ?_⟩
  · have hsleeping := le_sumAt RwPoint.sleeping s.control t
    rw [hasleep] at hsleeping
    rcases (h.attended hsleeping).resolve_left (not_not_intro hfree) with hwaking | hattending
    · obtain ⟨u, hu⟩ := total_pos_iff.mp hwaking
      cases hpoint : (s.control u).point with
      | wake cnt => exact Or.inl ⟨u, cnt, hpoint⟩
      | _ =>
          rw [hpoint] at hu
          exact absurd hu (Nat.lt_irrefl 0)
    · obtain ⟨u, hu⟩ := total_pos_iff.mp hattending
      exact Or.inr ⟨u, RwThread.attending_alone hfree hu⟩
  · subst hreader
    have hsleeping := le_sumAt RwPoint.sleepingReader s.control t
    rw [hasleep] at hsleeping
    rcases h.readers hsleeping with hwriting | hwaking
    · obtain ⟨u, hu⟩ := total_pos_iff.mp hwriting
      refine Or.inl ⟨u, by_contra fun hne => ?_⟩
      rw [RwThread.writing, if_neg hne] at hu
      exact absurd hu (Nat.lt_irrefl 0)
    · obtain ⟨u, hu⟩ := total_pos_iff.mp hwaking
      cases hpoint : (s.control u).point with
      | wake cnt =>
          rw [hpoint] at hu
          by_cases hcnt : cnt = 0x7fffffff
          · exact Or.inr ⟨u, by rw [hpoint, hcnt]⟩
          · rw [RwPoint.wakingAll, if_neg hcnt] at hu
            exact absurd hu (Nat.lt_irrefl 0)
      | _ =>
          rw [hpoint] at hu
          exact absurd hu (Nat.lt_irrefl 0)

namespace RwWitness

/-- The second thread reads while the first waits to write, and then leaves. -/
def schedule : List (Move RwThread Caller) :=
  [.call .second ⟨0, false, .tryRead .first⟩, .alone .second 2,
    .call .first ⟨0, false, .tryWrite .first⟩, .alone .first 207,
    .call .second ⟨1, false, .unlock⟩, .alone .second 3]

def left : Option (FutexState RwMemory RwThread Caller) := replay rwLock rwInit schedule

theorem left_exclusive : ∃ s, left = some s ∧ total RwThread.reads s.control ≤ 0x7ffffffe ∧
    s.memory = ⟨0, 1⟩ := by
  obtain ⟨s, hs⟩ := Option.isSome_iff_exists.mp (show left.isSome = true by decide +kernel)
  obtain ⟨labels, hrun⟩ := replay_run hs
  have hmemory : ∀ s ∈ left, s.memory = ⟨0, 1⟩ := by decide +kernel
  exact ⟨s, hs, (rwLock_exclusive (by decide) hrun).2.1, hmemory s hs⟩

/-- The thread that has left is about to wake the one that sleeps. -/
theorem left_progress : ∃ s, left = some s ∧ ((∃ u cnt, (s.control u).point = .wake cnt) ∨
    ∃ u, ∃ n ≤ 3, ∃ m c, rwLock.alone u n s.memory (s.control u) = some (m, c) ∧
      c.point = .done 0 ∧ (c.reads = (s.control u).reads + 1 ∨ c.writes = true)) := by
  obtain ⟨s, hs⟩ := Option.isSome_iff_exists.mp (show left.isSome = true by decide +kernel)
  obtain ⟨labels, hrun⟩ := replay_run hs
  have hfree : ∀ s ∈ left, s.memory.lock = 0 := by decide +kernel
  have hasleep : ∀ s ∈ left, (s.control .first).point = .wait true 0x80000001 .asleep := by
    decide +kernel
  exact ⟨s, hs, (rwLock_progress (by decide) hrun (hasleep s hs)).1 (hfree s hs)⟩

end RwWitness

end Sync

end WasixLibc
