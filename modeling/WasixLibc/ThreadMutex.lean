/-
The mutexes that are normal, recursive or check for errors.

The word of a normal mutex is `EBUSY` while a thread has it; the word of the others is
the identifier of that thread.  A flag in the word tells who gives the mutex back that
some thread may wait, also where the count of waiters was read too early.
-/
import WasixLibc.WaitQueue

namespace WasixLibc

namespace Sync

open FutexThreads

/-- `_m_type & 3` -/
inductive MutexType where
  | normal
  | recursive
  | errorcheck
deriving Repr, DecidableEq

structure MutexKind where
  type : MutexType
  pshared : Bool
deriving Repr, DecidableEq

/-- The `_m_lock`, as an unsigned number, the `_m_waiters` and the `_m_count` of a mutex. -/
structure MutexMemory where
  lock : Nat
  waiters : Nat
  count : Nat
deriving Repr, DecidableEq

/-- Which attempt a thread makes. -/
inductive MutexTry where
  /-- `pthread_mutex_lock` -/
  | lock
  /-- The one that begins `pthread_mutex_timedlock`. -/
  | timed
  /-- `pthread_mutex_trylock` itself -/
  | once
  /-- The one before the spinning loop. -/
  | first
  /-- The one at the head of the main loop. -/
  | again
deriving Repr, DecidableEq

/-- Where a thread is in the functions on a mutex. -/
inductive MutexPoint where
  | done (result : Nat)
  /-- `a_cas(&m->_m_lock, 0, EBUSY)` -/
  | cas (attempt : MutexTry)
  /-- `old = m->_m_lock` in `__pthread_mutex_trylock_owner` -/
  | owner (attempt : MutexTry)
  | recurse (attempt : MutexTry)
  /-- `m->_m_waiters` of a mutex that processes share. -/
  | tryWaiters (attempt : MutexTry)
  | casOwner (attempt : MutexTry) (new : Nat)
  /-- `m->_m_lock`, with so many turns of the spinning loop left after this one. -/
  | spin (spins : Nat)
  | spinWaiters (spins : Nat)
  | look
  | count (r : Nat)
  | mark (r : Nat)
  | wait (t : Nat) (point : TimedPoint)
  | leave (r : Option Nat)
  | unlock
  | unlockOwner (waiters : Nat)
  | unlockCount (waiters : Nat)
  | swap (waiters : Nat)
  | wake
deriving Repr, DecidableEq

/-- A thread, with how often it has locked the mutex and not unlocked it. -/
structure MutexThread where
  locks : Nat
  point : MutexPoint
deriving Repr, DecidableEq

def MutexThread.go (c : MutexThread) (point : MutexPoint) : MutexThread := { c with point }

/-- `__pthread_mutex_trylock` -/
def MutexKind.trylock (k : MutexKind) (attempt : MutexTry) : MutexPoint :=
  if k.type = .normal then .cas attempt else .owner attempt

/-- What follows `EBUSY`. -/
def MutexKind.busy (k : MutexKind) : MutexTry → MutexPoint
  | .lock => k.trylock .timed
  | .timed => k.trylock .first
  | .once => .done EBUSY
  | .first => .spin 99
  | .again => .look

/-- One access to the mutex of a thread with the identifier `tid`. -/
def MutexThread.run (k : MutexKind) (tid : Nat) (m : MutexMemory) (c : MutexThread) :
    Option (MutexMemory × MutexThread) :=
  match c.point with
  | .cas attempt =>
      some <|
        if m.lock = 0 then ({ m with lock := EBUSY }, ⟨c.locks + 1, .done 0⟩)
        else (m, c.go (k.busy attempt))
  | .owner attempt =>
      some (m, c.go <|
        if m.lock % 0x40000000 = tid ∧ k.type = .recursive then .recurse attempt
        else if m.lock % 0x40000000 = 0x3ffffffe then .done ENOTRECOVERABLE
        else if m.lock ≠ 0 then k.busy attempt
        else if k.pshared then .tryWaiters attempt
        else .casOwner attempt tid)
  | .recurse _ =>
      some <|
        if 0x7fffffff ≤ m.count then (m, c.go (.done EAGAIN))
        else ({ m with count := m.count + 1 }, ⟨c.locks + 1, .done 0⟩)
  | .tryWaiters attempt =>
      some (m, c.go (.casOwner attempt (if m.waiters ≠ 0 then flagged tid else tid)))
  | .casOwner attempt new =>
      some <|
        if m.lock = 0 then ({ m with lock := new }, ⟨c.locks + 1, .done 0⟩)
        else (m, c.go (k.busy attempt))
  | .spin spins => some (m, c.go (if m.lock = 0 then k.trylock .again else .spinWaiters spins))
  | .spinWaiters spins =>
      some (m, c.go <|
        if m.waiters ≠ 0 then k.trylock .again
        else match spins with
          | 0 => k.trylock .again
          | spins + 1 => .spin spins)
  | .look =>
      some (m, c.go <|
        if m.lock = 0 then k.trylock .again
        else if k.type = .errorcheck ∧ m.lock % 0x40000000 = tid then .done EDEADLK
        else .count m.lock)
  | .count r => some ({ m with waiters := (m.waiters + 1) % 0x100000000 }, c.go (.mark r))
  | .mark r =>
      some (if m.lock = r then { m with lock := flagged r } else m,
        c.go (.wait (flagged r) .called))
  | .wait t point =>
      (point.turn (m.lock = t) (fun point => c.go (.wait t point))
        (fun r => c.go (.leave r))).map fun c => (m, c)
  | .leave r =>
      some ({ m with waiters := (m.waiters + 0xffffffff) % 0x100000000 },
        c.go (r.elim (k.trylock .again) .done))
  | .unlock =>
      some (m, c.go (if k.type = .normal then .swap m.waiters else .unlockOwner m.waiters))
  | .unlockOwner waiters =>
      some (m, c.go <|
        if m.lock % 0x40000000 ≠ tid then .done EPERM
        else if k.type = .recursive then .unlockCount waiters
        else .swap waiters)
  | .unlockCount waiters =>
      some <|
        if m.count ≠ 0 then ({ m with count := m.count - 1 }, ⟨c.locks - 1, .done 0⟩)
        else (m, c.go (.swap waiters))
  | .swap waiters =>
      some ({ m with lock := 0 }, ⟨c.locks - 1,
        if waiters ≠ 0 ∨ 0x80000000 ≤ m.lock then .wake else .done 0⟩)
  | .done _ | .wake => none

def MutexThread.asleep (c : MutexThread) : Bool :=
  match c.point with
  | .wait _ .asleep => true
  | _ => false

def MutexThread.roused (c : MutexThread) : MutexThread :=
  match c.point with
  | .wait _ .asleep => c.go (.leave none)
  | _ => c

def MutexThread.stirred (c : MutexThread) : MutexThread :=
  match c.point with
  | .wait t .asleep => c.go (.wait t .stirred)
  | _ => c

def MutexThread.refused (m : MutexMemory) (c : MutexThread) : Option MutexThread :=
  match c.point with
  | .wait t point => point.refused (m.lock = t) (fun r => c.go (.leave r))
  | _ => none

/-- The calls, and the ends of `__timedwait` before the word is looked at. -/
def MutexKind.calls (k : MutexKind) (held : Bool) : MutexPoint → MutexPoint → Bool
  | .done _, .cas attempt =>
      k.type = .normal ∧ (attempt = .lock ∨ attempt = .timed ∨ attempt = .once)
  | .done _, .owner attempt => k.type ≠ .normal ∧ (attempt = .first ∨ attempt = .once)
  | .done _, .unlock => held ∨ k.type ≠ .normal
  | .wait _ .called, .leave (some r) => r = ETIMEDOUT ∨ r = EINVAL
  | _, _ => false

/-- What a caller may do; a normal mutex is given back by a thread that has it. -/
def MutexKind.Calls (k : MutexKind) (c c' : MutexThread) : Prop :=
  c' = c.go c'.point ∧ k.calls (0 < c.locks) c.point c'.point = true

/-- The functions on a `pthread_mutex_t`. -/
def pthreadMutex {T : Type} (k : MutexKind) (tid : T → Nat) :
    FutexProgram MutexMemory MutexThread T where
  run t := MutexThread.run k (tid t)
  call := k.Calls
  asleep := MutexThread.asleep
  hears _ := MutexThread.asleep
  roused := MutexThread.roused
  stirred := MutexThread.stirred
  refused := MutexThread.refused
  wakes c :=
    match c.point with
    | .wake => some (.one, c.go (.done 0))
    | _ => none

instance {T : Type} (k : MutexKind) (tid : T → Nat) (c c' : MutexThread) :
    Decidable ((pthreadMutex k tid).call c c') :=
  inferInstanceAs (Decidable (_ ∧ _))

/-! The invariant -/

/-- What the word is without the flag while a thread with the identifier `tid` has the mutex. -/
def MutexKind.word (k : MutexKind) (tid : Nat) : Nat := if k.type = .normal then EBUSY else tid

/-- The thread is one of those in `_m_waiters`. -/
def MutexPoint.counted : MutexPoint → Nat
  | .mark _ | .wait _ _ | .leave _ => 1
  | _ => 0

def MutexPoint.sleeping : MutexPoint → Nat
  | .wait _ .asleep => 1
  | _ => 0

/-- The thread wakes another one, or will try to take the mutex. -/
def MutexPoint.attending : MutexPoint → Nat
  | .wake | .leave none | .cas .again | .owner .again | .tryWaiters .again
  | .casOwner .again _ => 1
  | _ => 0

/-- The thread is about to give the mutex back, and has seen no waiters. -/
def MutexPoint.unseen : MutexPoint → Bool
  | .unlockOwner 0 | .unlockCount 0 | .swap 0 => true
  | _ => false

abbrev MutexThread.counted (c : MutexThread) : Nat := c.point.counted

abbrev MutexThread.sleeping (c : MutexThread) : Nat := c.point.sleeping

abbrev MutexThread.attending (c : MutexThread) : Nat := c.point.attending

def MutexThread.Stale (c : MutexThread) : Prop := 0 < c.locks ∧ c.point.unseen = true

/-- What a thread keeps in its variables, and what it has. -/
def MutexThread.Sensible (k : MutexKind) (tid : Nat) (c : MutexThread) : Prop :=
  match c.point with
  | .cas _ => k.type = .normal
  | .owner _ | .unlockOwner _ => k.type ≠ .normal
  | .recurse _ | .unlockCount _ => k.type = .recursive ∧ 0 < c.locks
  | .tryWaiters _ => k.type ≠ .normal ∧ c.locks = 0
  | .casOwner _ new => k.type ≠ .normal ∧ c.locks = 0 ∧ (new = tid ∨ new = tid + 0x80000000)
  | .spin _ | .spinWaiters _ | .look => k.type = .recursive → c.locks = 0
  | .count r | .mark r => r ≠ 0 ∧ r < 0x100000000 ∧ (k.type ≠ .normal → c.locks = 0)
  | .wait t _ => 0x80000000 ≤ t ∧ (k.type ≠ .normal → c.locks = 0)
  | .leave _ => k.type ≠ .normal → c.locks = 0
  | .unlock => k.type = .normal → 0 < c.locks
  | .swap _ => c.locks = 1
  | .done _ | .wake => True

/-- What the word says of the thread that has the mutex. -/
inductive MutexAgrees {T : Type} (k : MutexKind) (tid : T → Nat) (m : MutexMemory)
    (locks : T → Nat) : Prop
  | free (hlock : m.lock = 0) (hcount : m.count = 0) (hnone : ∀ t, locks t = 0)
  | held (t : T) (hlock : m.lock = k.word (tid t) ∨ m.lock = k.word (tid t) + 0x80000000)
      (hlocks : locks t = m.count + 1) (hcount : k.type ≠ .recursive → m.count = 0)
      (hle : m.count ≤ 0x7fffffff) (hother : ∀ u, u ≠ t → locks u = 0)

/-- The identifiers of the threads fit below the flags, and none is that of two threads. -/
structure Identifiers {T : Type} (tid : T → Nat) : Prop where
  pos : ∀ t, 0 < tid t
  lt : ∀ t, tid t < 0x40000000
  inj : ∀ t u, tid t = tid u → t = u

variable {T : Type} [Fintype T]

abbrev MutexState (T : Type) := FutexState MutexMemory MutexThread T

/-- The invariant of the mutex. -/
structure MutexInv (k : MutexKind) (tid : T → Nat) (s : MutexState T) : Prop where
  agrees : MutexAgrees k tid s.memory fun t => (s.control t).locks
  sensible : ∀ t, (s.control t).Sensible k (tid t)
  queue : CountedQueue MutexThread.counted MutexThread.sleeping MutexThread.attending
    (s.memory.lock ≠ 0) s.memory.waiters s.control
  fresh : ∀ t, (s.control t).Stale →
    total MutexThread.sleeping s.control = 0 ∨ 0x80000000 ≤ s.memory.lock

/-- `PTHREAD_MUTEX_INITIALIZER`, or `pthread_mutex_init` -/
def mutexInit : MutexState T := ⟨⟨0, 0, 0⟩, fun _ => ⟨0, .done 0⟩⟩

theorem mutexInit_inv (k : MutexKind) (tid : T → Nat) :
    MutexInv k tid (mutexInit : MutexState T) where
  agrees := .free rfl rfl fun _ => rfl
  sensible _ := trivial
  queue := ⟨by simp [mutexInit, total, MutexPoint.counted],
    Or.inr (Or.inl (by simp [mutexInit, total, MutexPoint.sleeping]))⟩
  fresh _ hstale := absurd hstale.1 (Nat.lt_irrefl 0)

section

variable {k : MutexKind} {tid : T → Nat} {s : MutexState T} {t : T}

omit [Fintype T] in
theorem Identifiers.word_bounds (hid : Identifiers tid) (k : MutexKind) (t : T) :
    0 < k.word (tid t) ∧ k.word (tid t) < 0x40000000 := by
  unfold MutexKind.word
  split
  · exact ⟨by decide, by decide⟩
  · exact ⟨hid.pos t, hid.lt t⟩

omit [Fintype T] in
theorem MutexKind.word_of_type (htype : k.type ≠ .normal) (t : T) : k.word (tid t) = tid t :=
  if_neg htype

omit [Fintype T] in
theorem MutexAgrees.lock_lt {m : MutexMemory} {locks : T → Nat} (hid : Identifiers tid)
    (h : MutexAgrees k tid m locks) : m.lock < 0x100000000 := by
  cases h with
  | free hlock => omega
  | held t hlock =>
      have hword := hid.word_bounds k t
      omega

omit [Fintype T] in
/-- The thread whose identifier is in the word has the mutex. -/
theorem MutexAgrees.owns {m : MutexMemory} {locks : T → Nat} (hid : Identifiers tid)
    (h : MutexAgrees k tid m locks) (htype : k.type ≠ .normal)
    (hown : m.lock % 0x40000000 = tid t) : 0 < locks t := by
  cases h with
  | free hlock =>
      have hpos := hid.pos t
      rw [hlock] at hown
      omega
  | held u hlock hlocks =>
      have hlt := hid.lt u
      rw [MutexKind.word_of_type htype] at hlock
      obtain rfl : u = t := hid.inj u t (by omega)
      omega

omit [Fintype T] in
theorem MutexAgrees.not_owns {m : MutexMemory} {locks : T → Nat} (hid : Identifiers tid)
    (h : MutexAgrees k tid m locks) (htype : k.type ≠ .normal)
    (hown : m.lock % 0x40000000 ≠ tid t) : locks t = 0 := by
  cases h with
  | free hlock hcount hnone => exact hnone t
  | held u hlock hlocks hcount hle hother =>
      refine hother t ?_
      rintro rfl
      have hlt := hid.lt t
      rw [MutexKind.word_of_type htype] at hlock
      omega

omit [Fintype T] in
/-- A thread that has the mutex is the one that the word is about. -/
theorem MutexAgrees.of_locks {m : MutexMemory} {locks : T → Nat} (h : MutexAgrees k tid m locks)
    (hpos : 0 < locks t) : (m.lock = k.word (tid t) ∨ m.lock = k.word (tid t) + 0x80000000) ∧
      locks t = m.count + 1 ∧ (k.type ≠ .recursive → m.count = 0) ∧ m.count ≤ 0x7fffffff ∧
        ∀ u, u ≠ t → locks u = 0 := by
  cases h with
  | free hlock hcount hnone => exact absurd (hnone t) (Nat.pos_iff_ne_zero.mp hpos)
  | held u hlock hlocks hcount hle hother =>
      obtain rfl : t = u := by
        by_contra hne
        exact absurd (hother t hne) (Nat.pos_iff_ne_zero.mp hpos)
      exact ⟨hlock, hlocks, hcount, hle, hother⟩

omit [Fintype T] in
theorem MutexAgrees.of_free {m : MutexMemory} {locks : T → Nat} (hid : Identifiers tid)
    (h : MutexAgrees k tid m locks) (hfree : m.lock = 0) : m.count = 0 ∧ ∀ t, locks t = 0 := by
  cases h with
  | free hlock hcount hnone => exact ⟨hcount, hnone⟩
  | held t hlock =>
      have hword := hid.word_bounds k t
      omega

omit [Fintype T] in
theorem MutexPoint.attending_le (point : MutexPoint) : point.attending ≤ 1 := by
  unfold attending
  split <;> simp

omit [Fintype T] in
theorem MutexThread.counted_le (c : MutexThread) : c.counted ≤ 1 := by
  obtain ⟨locks, point⟩ := c
  cases point <;> simp [counted, MutexPoint.counted]

omit [Fintype T] in
theorem MutexThread.sleeping_le (c : MutexThread) : c.sleeping ≤ c.counted := by
  obtain ⟨locks, point⟩ := c
  cases point with
  | wait t point =>
      cases point <;> simp [sleeping, counted, MutexPoint.sleeping, MutexPoint.counted]
  | _ => simp [sleeping, MutexPoint.sleeping]

variable [DecidableEq T]

omit [Fintype T] in
theorem locks_update (control : T → MutexThread) (t : T) (c : MutexThread) :
    (fun u => (Function.update control t c u).locks) =
      Function.update (fun u => (control u).locks) t c.locks :=
  Function.comp_update MutexThread.locks control t c

omit [Fintype T] in
theorem locks_same {control : T → MutexThread} {c : MutexThread}
    (hlocks : c.locks = (control t).locks) :
    (fun u => (Function.update control t c u).locks) = fun u => (control u).locks := by
  rw [locks_update, hlocks]
  exact Function.update_eq_self _ _

theorem MutexInv.sensible_update (h : MutexInv k tid s) {c : MutexThread}
    (hsensible : c.Sensible k (tid t)) (u : T) :
    (Function.update s.control t c u).Sensible k (tid u) :=
  (Function.forall_update_iff s.control fun u c => c.Sensible k (tid u)).mpr
    ⟨hsensible, fun u _ => h.sensible u⟩ u

/-- A thread goes on, and leaves the word and the mutex with who has it. -/
theorem MutexInv.pass (h : MutexInv k tid s) {point : MutexPoint} {waiters : Nat}
    (hsensible : ((s.control t).go point).Sensible k (tid t))
    (hqueue : CountedQueue MutexThread.counted MutexThread.sleeping MutexThread.attending
      (s.memory.lock ≠ 0) waiters (Function.update s.control t ((s.control t).go point)))
    (hsleeps : point.sleeping = 0 ∨ 0x80000000 ≤ s.memory.lock)
    (hunseen : point.unseen = true → (s.control t).point.unseen = true ∨ s.memory.waiters = 0) :
    MutexInv k tid ⟨{ s.memory with waiters },
      Function.update s.control t ((s.control t).go point)⟩ where
  agrees := by
    dsimp only
    rw [locks_same (by rfl)]
    cases h.agrees with
    | free hlock hcount hnone => exact .free hlock hcount hnone
    | held u hlock hlocks hcount hle hother => exact .held u hlock hlocks hcount hle hother
  sensible := h.sensible_update hsensible
  queue := hqueue
  fresh u hu := by
    have hbefore : total MutexThread.sleeping s.control = 0 ∨ 0x80000000 ≤ s.memory.lock := by
      by_cases hut : u = t
      · subst hut
        dsimp only at hu
        rw [Function.update_self] at hu
        rcases hunseen hu.2 with hold | hnone
        · exact h.fresh u ⟨hu.1, hold⟩
        · exact Or.inl (h.queue.none_sleeping MutexThread.sleeping_le hnone)
      · dsimp only at hu
        rw [Function.update_of_ne hut] at hu
        exact h.fresh u hu
    have hupdate := total_update MutexThread.sleeping s.control t ((s.control t).go point)
    have hsame : ((s.control t).go point).sleeping = point.sleeping := rfl
    dsimp only
    omega

/-- A thread goes on that neither comes to the queue nor leaves it. -/
theorem MutexInv.goes (hcard : Fintype.card T < 0x100000000) (h : MutexInv k tid s)
    {now point : MutexPoint} (hnow : (s.control t).point = now)
    (hsensible : ((s.control t).go point).Sensible k (tid t))
    (hcounted : point.counted = now.counted) (hawake : point.sleeping = 0)
    (hattends : s.memory.lock ≠ 0 ∨ now.attending ≤ point.attending)
    (hunseen : point.unseen = true → now.unseen = true ∨ s.memory.waiters = 0) :
    MutexInv k tid ⟨s.memory, Function.update s.control t ((s.control t).go point)⟩ := by
  subst hnow
  refine h.pass hsensible ?_ (Or.inl hawake) hunseen
  refine h.queue.access hcard MutexThread.counted_le MutexThread.sleeping_le
    (Or.inl ⟨rfl, hcounted⟩) ?_
  rcases hattends with hblocked | hle
  · exact Or.inl hblocked
  · rcases Nat.eq_zero_or_pos (s.control t).point.attending with hidle | hpos
    · exact .aside hawake hidle
    · exact Or.inr (Or.inl (Nat.lt_of_lt_of_le hpos hle))

/-- A thread that takes the mutex, which is free. -/
theorem MutexInv.take (hid : Identifiers tid) (hcard : Fintype.card T < 0x100000000)
    (h : MutexInv k tid s) (hfree : s.memory.lock = 0) {new : Nat}
    (hnew : new = k.word (tid t) ∨ new = k.word (tid t) + 0x80000000)
    (hcounted : (s.control t).point.counted = 0) :
    MutexInv k tid ⟨{ s.memory with lock := new },
      Function.update s.control t ⟨(s.control t).locks + 1, .done 0⟩⟩ := by
  obtain ⟨hcount, hnone⟩ := h.agrees.of_free hid hfree
  have hword := hid.word_bounds k t
  refine ⟨?_, h.sensible_update trivial, ?_, ?_⟩
  · dsimp only
    rw [locks_update]
    refine .held t hnew ?_ (fun _ => hcount) (by dsimp only; omega) ?_
    · rw [Function.update_self, hcount, hnone t]
    · intro u hu
      rw [Function.update_of_ne hu]
      exact hnone u
  · refine h.queue.access hcard MutexThread.counted_le MutexThread.sleeping_le
      (Or.inl ⟨rfl, hcounted.symm⟩) (Or.inl ?_)
    dsimp only
    omega
  · intro u hu
    dsimp only at hu
    by_cases hut : u = t
    · subst hut
      rw [Function.update_self] at hu
      cases hu.2
    · rw [Function.update_of_ne hut] at hu
      exact absurd (hnone u) (Nat.pos_iff_ne_zero.mp hu.1)

/-- The thread that has a recursive mutex locks it once more, or once less. -/
theorem MutexInv.relock (hcard : Fintype.card T < 0x100000000) (h : MutexInv k tid s) {n : Nat}
    (htype : k.type = .recursive) (hpos : 0 < (s.control t).locks) (hle : n ≤ 0x7fffffff)
    (hcounted : (s.control t).point.counted = 0) (hidle : (s.control t).point.attending = 0) :
    MutexInv k tid ⟨{ s.memory with count := n },
      Function.update s.control t ⟨n + 1, .done 0⟩⟩ := by
  obtain ⟨hlock, hlocks, -, -, hother⟩ := h.agrees.of_locks hpos
  refine ⟨?_, h.sensible_update trivial, ?_, ?_⟩
  · dsimp only
    rw [locks_update]
    refine .held t hlock (Function.update_self ..) (fun hne => absurd htype hne) hle ?_
    intro u hu
    rw [Function.update_of_ne hu]
    exact hother u hu
  · exact h.queue.access hcard MutexThread.counted_le MutexThread.sleeping_le
      (Or.inl ⟨rfl, hcounted.symm⟩) (.aside rfl hidle)
  · intro u hu
    dsimp only at hu ⊢
    by_cases hut : u = t
    · subst hut
      rw [Function.update_self] at hu
      cases hu.2
    · rw [Function.update_of_ne hut] at hu
      exact absurd (hother u hut) (Nat.pos_iff_ne_zero.mp hu.1)

/-- A thread gives the mutex back. -/
theorem MutexInv.release (hcard : Fintype.card T < 0x100000000) (h : MutexInv k tid s)
    {waiters : Nat} (hpoint : (s.control t).point = .swap waiters) :
    MutexInv k tid ⟨{ s.memory with lock := 0 }, Function.update s.control t
      ⟨(s.control t).locks - 1,
        if waiters ≠ 0 ∨ 0x80000000 ≤ s.memory.lock then .wake else .done 0⟩⟩ := by
  have hone : (s.control t).locks = 1 := by
    have hsensible := h.sensible t
    unfold MutexThread.Sensible at hsensible
    rwa [hpoint] at hsensible
  obtain ⟨-, hlocks, -, -, hother⟩ := h.agrees.of_locks (t := t) (by omega)
  have hcounted : (s.control t).point.counted = 0 := by rw [hpoint]; rfl
  have hnone : ∀ u, (Function.update s.control t ⟨(s.control t).locks - 1,
      if waiters ≠ 0 ∨ 0x80000000 ≤ s.memory.lock then .wake else .done 0⟩ u).locks = 0 := by
    intro u
    by_cases hut : u = t
    · subst hut
      rw [Function.update_self, hone]
    · rw [Function.update_of_ne hut]
      exact hother u hut
  refine ⟨.free rfl (by dsimp only; omega) hnone, h.sensible_update ?_, ?_, ?_⟩
  · split <;> trivial
  · refine h.queue.step hcard MutexThread.counted_le ?_ ?_
    · refine Or.inl ⟨rfl, ?_⟩
      rw [MutexThread.counted, MutexThread.counted, hcounted]
      split <;> rfl
    · split
      · exact Or.inr (Or.inl Nat.one_pos)
      · rename_i hquiet
        obtain rfl : waiters = 0 := by omega
        have hnobody := (h.fresh t ⟨by omega, by rw [hpoint]; rfl⟩).resolve_right (by omega)
        exact Or.inr (Or.inr ⟨rfl, Or.inl hnobody⟩)
  · intro u hu
    exact absurd (hnone u) (Nat.pos_iff_ne_zero.mp hu.1)

omit [Fintype T] [DecidableEq T] in
/-- The flag is set in a word that is not zero. -/
theorem MutexAgrees.mark {m : MutexMemory} {locks : T → Nat} (hid : Identifiers tid)
    (h : MutexAgrees k tid m locks) (hpos : m.lock ≠ 0) :
    MutexAgrees k tid { m with lock := flagged m.lock } locks := by
  cases h with
  | free hlock => exact absurd hlock hpos
  | held t hlock hlocks hcount hle hother =>
      have hword := hid.word_bounds k t
      refine .held t (Or.inr ?_) hlocks hcount hle hother
      unfold flagged
      dsimp only
      split <;> omega

/-- A thread says in the word that it may wait. -/
theorem MutexInv.mark (hid : Identifiers tid) (hcard : Fintype.card T < 0x100000000)
    (h : MutexInv k tid s) (hpoint : (s.control t).point = .mark s.memory.lock) :
    MutexInv k tid ⟨{ s.memory with lock := flagged s.memory.lock }, Function.update s.control t
      ((s.control t).go (.wait (flagged s.memory.lock) .called))⟩ := by
  have hsensible := h.sensible t
  unfold MutexThread.Sensible at hsensible
  rw [hpoint] at hsensible
  obtain ⟨hpos, hlt, hlocks⟩ := hsensible
  have hflag := (flagged_spec hlt).1
  refine ⟨?_, h.sensible_update ⟨hflag, hlocks⟩, ?_, fun u hu => Or.inr hflag⟩
  · dsimp only
    rw [locks_same (by rfl)]
    exact h.agrees.mark hid hpos
  · refine h.queue.access hcard MutexThread.counted_le MutexThread.sleeping_le ?_ (Or.inl ?_)
    · rw [show (s.control t).counted = 1 by rw [MutexThread.counted, hpoint]; rfl]
      exact .refl _ _
    · dsimp only
      omega

omit [Fintype T] [DecidableEq T] in
theorem MutexKind.trylock_spec (k : MutexKind) (attempt : MutexTry) :
    (k.trylock attempt).counted = 0 ∧ (k.trylock attempt).sleeping = 0 ∧
      (k.trylock attempt).unseen = false ∧ (k.trylock .again).attending = 1 := by
  unfold MutexKind.trylock
  split <;> exact ⟨rfl, rfl, rfl, rfl⟩

omit [Fintype T] [DecidableEq T] in
theorem MutexKind.trylock_sensible (k : MutexKind) (attempt : MutexTry) (id : Nat)
    (c : MutexThread) : (c.go (k.trylock attempt)).Sensible k id := by
  unfold MutexKind.trylock
  split
  · assumption
  · assumption

omit [Fintype T] [DecidableEq T] in
theorem MutexKind.busy_spec (k : MutexKind) (attempt : MutexTry) :
    (k.busy attempt).counted = 0 ∧ (k.busy attempt).sleeping = 0 ∧
      (k.busy attempt).unseen = false := by
  have htimed := k.trylock_spec .timed
  have hfirst := k.trylock_spec .first
  cases attempt with
  | lock => exact ⟨htimed.1, htimed.2.1, htimed.2.2.1⟩
  | timed => exact ⟨hfirst.1, hfirst.2.1, hfirst.2.2.1⟩
  | _ => exact ⟨rfl, rfl, rfl⟩

omit [Fintype T] [DecidableEq T] in
theorem MutexKind.busy_sensible (k : MutexKind) (attempt : MutexTry) (id : Nat) (c : MutexThread)
    (hlocks : k.type = .recursive → c.locks = 0) : (c.go (k.busy attempt)).Sensible k id := by
  cases attempt with
  | lock => exact k.trylock_sensible _ id c
  | timed => exact k.trylock_sensible _ id c
  | once => trivial
  | first => exact hlocks
  | again => exact hlocks

/-- A thread makes its next attempt in the main loop. -/
theorem MutexInv.retry (hcard : Fintype.card T < 0x100000000) (h : MutexInv k tid s)
    (hout : (s.control t).point.counted = 0) :
    MutexInv k tid ⟨s.memory, Function.update s.control t
      ((s.control t).go (k.trylock .again))⟩ := by
  obtain ⟨hcounted, hawake, hunseen, hattends⟩ := k.trylock_spec .again
  refine h.goes hcard rfl (k.trylock_sensible .again _ _) (hcounted.trans hout.symm) hawake
    (Or.inr ?_) (fun hu => absurd (hunseen.symm.trans hu) Bool.false_ne_true)
  rw [hattends]
  exact MutexPoint.attending_le _

/-- A thread has found that another one has the mutex. -/
theorem MutexInv.busy (hcard : Fintype.card T < 0x100000000) (h : MutexInv k tid s)
    (attempt : MutexTry) (hheld : s.memory.lock ≠ 0) (hout : (s.control t).point.counted = 0)
    (hlocks : k.type = .recursive → (s.control t).locks = 0) :
    MutexInv k tid ⟨s.memory, Function.update s.control t
      ((s.control t).go (k.busy attempt))⟩ := by
  obtain ⟨hcounted, hawake, hunseen⟩ := k.busy_spec attempt
  exact h.goes hcard rfl (k.busy_sensible attempt _ _ hlocks) (hcounted.trans hout.symm) hawake
    (Or.inl hheld) (fun hu => absurd (hunseen.symm.trans hu) Bool.false_ne_true)

/-- `__pthread_mutex_trylock_owner` has read the word. -/
theorem MutexInv.owner (hid : Identifiers tid) (hcard : Fintype.card T < 0x100000000)
    (h : MutexInv k tid s) {attempt : MutexTry} (hpoint : (s.control t).point = .owner attempt) :
    MutexInv k tid ⟨s.memory, Function.update s.control t ((s.control t).go <|
      if s.memory.lock % 0x40000000 = tid t ∧ k.type = .recursive then .recurse attempt
      else if s.memory.lock % 0x40000000 = 0x3ffffffe then .done ENOTRECOVERABLE
      else if s.memory.lock ≠ 0 then k.busy attempt
      else if k.pshared then .tryWaiters attempt
      else .casOwner attempt (tid t))⟩ := by
  have htype := h.sensible t
  unfold MutexThread.Sensible at htype
  rw [hpoint] at htype
  have hpos := hid.pos t
  split
  · rename_i hown
    exact h.goes hcard hpoint ⟨hown.2, h.agrees.owns (t := t) hid htype hown.1⟩ rfl rfl
      (Or.inl (by omega)) (fun hu => by cases hu)
  · rename_i hother
    split
    · exact h.goes hcard hpoint trivial rfl rfl (Or.inl (by omega)) (fun hu => by cases hu)
    · split
      · rename_i hheld
        refine h.busy hcard attempt hheld (by rw [hpoint]; rfl) fun hrecursive => ?_
        exact h.agrees.not_owns (t := t) hid htype fun hown => hother ⟨hown, hrecursive⟩
      · rename_i hfree
        have hnone := (h.agrees.of_free hid (not_not.mp hfree)).2 t
        split
        · exact h.goes hcard hpoint ⟨htype, hnone⟩ rfl rfl
            (Or.inr (by cases attempt <;> exact Nat.le_refl _)) (fun hu => by cases hu)
        · exact h.goes hcard hpoint ⟨htype, hnone, Or.inl rfl⟩ rfl rfl
            (Or.inr (by cases attempt <;> exact Nat.le_refl _)) (fun hu => by cases hu)

/-- A thread has read the word in the main loop. -/
theorem MutexInv.look (hid : Identifiers tid) (hcard : Fintype.card T < 0x100000000)
    (h : MutexInv k tid s) (hpoint : (s.control t).point = .look) :
    MutexInv k tid ⟨s.memory, Function.update s.control t ((s.control t).go <|
      if s.memory.lock = 0 then k.trylock .again
      else if k.type = .errorcheck ∧ s.memory.lock % 0x40000000 = tid t then .done EDEADLK
      else .count s.memory.lock)⟩ := by
  have hsensible := h.sensible t
  unfold MutexThread.Sensible at hsensible
  rw [hpoint] at hsensible
  split
  · exact h.retry hcard (by rw [hpoint]; rfl)
  · rename_i hheld
    split
    · exact h.goes hcard hpoint trivial rfl rfl (Or.inr (Nat.zero_le _)) (fun hu => by cases hu)
    · rename_i hother
      refine h.goes hcard hpoint ⟨hheld, h.agrees.lock_lt hid, fun htype => ?_⟩ rfl rfl
        (Or.inr (Nat.zero_le _)) (fun hu => by cases hu)
      by_cases hrecursive : k.type = .recursive
      · exact hsensible hrecursive
      · refine h.agrees.not_owns (t := t) hid htype fun hown => hother ⟨?_, hown⟩
        cases hk : k.type with
        | normal => exact absurd hk htype
        | recursive => exact absurd hk hrecursive
        | errorcheck => rfl

/-- An access in `__timedwait`. -/
theorem MutexInv.waits (hcard : Fintype.card T < 0x100000000) (h : MutexInv k tid s) {r : Nat}
    {point : TimedPoint} {c : MutexThread} (hpoint : (s.control t).point = .wait r point)
    (hturn : point.turn (s.memory.lock = r) (fun point => (s.control t).go (.wait r point))
      (fun r => (s.control t).go (.leave r)) = some c) :
    MutexInv k tid ⟨s.memory, Function.update s.control t c⟩ := by
  have hsensible := h.sensible t
  unfold MutexThread.Sensible at hsensible
  rw [hpoint] at hsensible
  obtain ⟨hawake, rfl | ⟨rfl, -⟩ | rfl | ⟨rfl, hsame⟩⟩ := TimedPoint.turn_cases hturn
  · exact h.goes hcard hpoint hsensible.2 rfl rfl (Or.inr (Nat.zero_le _)) (fun hu => by cases hu)
  · exact h.goes hcard hpoint hsensible.2 rfl rfl (Or.inr (Nat.zero_le _)) (fun hu => by cases hu)
  · exact h.goes hcard hpoint hsensible rfl rfl (Or.inr (Nat.zero_le _)) (fun hu => by cases hu)
  · -- the host has found the flag in the word
    have hlock : s.memory.lock = r := of_decide_eq_true hsame
    have hflag := hsensible.1
    have hcounted : (s.control t).counted = 1 := by rw [MutexThread.counted, hpoint]; rfl
    refine h.pass hsensible ?_ (Or.inr (by omega)) (fun hu => by cases hu)
    exact h.queue.access hcard MutexThread.counted_le MutexThread.sleeping_le
      (Or.inl ⟨rfl, hcounted.symm⟩) (Or.inl (by omega))

/-- A thread is no longer one of the waiters. -/
theorem MutexInv.leave (hcard : Fintype.card T < 0x100000000) (h : MutexInv k tid s)
    {r : Option Nat} (hpoint : (s.control t).point = .leave r) :
    MutexInv k tid ⟨{ s.memory with waiters := (s.memory.waiters + 0xffffffff) % 0x100000000 },
      Function.update s.control t ((s.control t).go (r.elim (k.trylock .again) .done))⟩ := by
  have hcounted : (s.control t).counted = 1 := by rw [MutexThread.counted, hpoint]; rfl
  cases r with
  | none =>
      obtain ⟨hout, hawake, hunseen, hattends⟩ := k.trylock_spec .again
      refine h.pass (k.trylock_sensible .again _ _) ?_ (Or.inl hawake)
        (fun hu => absurd (hunseen.symm.trans hu) Bool.false_ne_true)
      exact h.queue.access hcard MutexThread.counted_le MutexThread.sleeping_le
        (Or.inr (Or.inr ⟨rfl, hcounted, hout⟩))
        (Or.inr (Or.inl (Nat.lt_of_lt_of_eq Nat.one_pos hattends.symm)))
  | some r =>
      refine h.pass trivial ?_ (Or.inl rfl) (fun hu => by cases hu)
      exact h.queue.access hcard MutexThread.counted_le MutexThread.sleeping_le
        (Or.inr (Or.inr ⟨rfl, hcounted, rfl⟩))
        (.aside rfl (by rw [MutexThread.attending, hpoint]; rfl))

omit [Fintype T] [DecidableEq T] in
/-- A point of `pthread_mutex_unlock` with a count that is not zero has seen the waiters. -/
theorem MutexPoint.zero_of_unseen {point : Nat → MutexPoint} {waiters : Nat}
    (hseen : ∀ n, (point (n + 1)).unseen = false) (hunseen : (point waiters).unseen = true) :
    waiters = 0 := by
  cases waiters with
  | zero => rfl
  | succ n =>
      rw [hseen] at hunseen
      cases hunseen

/-- A thread has read the count of waiters, and is about to look whether the mutex is its own. -/
theorem MutexInv.unlocks (hcard : Fintype.card T < 0x100000000) (h : MutexInv k tid s)
    (hpoint : (s.control t).point = .unlock) :
    MutexInv k tid ⟨s.memory, Function.update s.control t ((s.control t).go <|
      if k.type = .normal then .swap s.memory.waiters else .unlockOwner s.memory.waiters)⟩ := by
  have hsensible := h.sensible t
  unfold MutexThread.Sensible at hsensible
  rw [hpoint] at hsensible
  split
  · rename_i htype
    obtain ⟨-, hlocks, hcount, -, -⟩ := h.agrees.of_locks (hsensible htype)
    have hzero := hcount (by rw [htype]; simp)
    refine h.goes hcard hpoint ?_ rfl rfl (Or.inr (Nat.zero_le _))
      (fun hu => Or.inr (@MutexPoint.zero_of_unseen .swap _ (fun _ => rfl) hu))
    show (s.control t).locks = 1
    omega
  · rename_i htype
    exact h.goes hcard hpoint htype rfl rfl (Or.inr (Nat.zero_le _))
      (fun hu => Or.inr (@MutexPoint.zero_of_unseen .unlockOwner _ (fun _ => rfl) hu))

/-- A thread has looked whether the mutex is its own. -/
theorem MutexInv.unlockOwner (hid : Identifiers tid) (hcard : Fintype.card T < 0x100000000)
    (h : MutexInv k tid s) {waiters : Nat} (hpoint : (s.control t).point = .unlockOwner waiters) :
    MutexInv k tid ⟨s.memory, Function.update s.control t ((s.control t).go <|
      if s.memory.lock % 0x40000000 ≠ tid t then .done EPERM
      else if k.type = .recursive then .unlockCount waiters
      else .swap waiters)⟩ := by
  have htype := h.sensible t
  unfold MutexThread.Sensible at htype
  rw [hpoint] at htype
  split
  · exact h.goes hcard hpoint trivial rfl rfl (Or.inr (Nat.zero_le _)) (fun hu => by cases hu)
  · rename_i hown
    have hpos := h.agrees.owns hid htype (not_not.mp hown)
    obtain ⟨-, hlocks, hcount, -, -⟩ := h.agrees.of_locks hpos
    split
    · rename_i hrecursive
      exact h.goes hcard hpoint ⟨hrecursive, hpos⟩ rfl rfl (Or.inr (Nat.zero_le _))
        (fun hu => Or.inl (by cases waiters <;> first | rfl | cases hu))
    · rename_i hrecursive
      have hzero := hcount hrecursive
      refine h.goes hcard hpoint ?_ rfl rfl (Or.inr (Nat.zero_le _))
        (fun hu => Or.inl (by cases waiters <;> first | rfl | cases hu))
      show (s.control t).locks = 1
      omega

/-- The thread has a recursive mutex once more. -/
theorem MutexInv.recurse (hcard : Fintype.card T < 0x100000000) (h : MutexInv k tid s)
    {attempt : MutexTry} (hpoint : (s.control t).point = .recurse attempt)
    (hroom : ¬0x7fffffff ≤ s.memory.count) :
    MutexInv k tid ⟨{ s.memory with count := s.memory.count + 1 }, Function.update s.control t
      ⟨(s.control t).locks + 1, .done 0⟩⟩ := by
  have hsensible := h.sensible t
  unfold MutexThread.Sensible at hsensible
  rw [hpoint] at hsensible
  obtain ⟨htype, hpos⟩ := hsensible
  obtain ⟨-, hlocks, -, -, -⟩ := h.agrees.of_locks hpos
  rw [hlocks]
  exact h.relock hcard htype hpos (by omega) (by rw [hpoint]; rfl) (by rw [hpoint]; rfl)

/-- The thread has a recursive mutex once less, and keeps it unless this was the last time. -/
theorem MutexInv.unlockCount (hcard : Fintype.card T < 0x100000000) (h : MutexInv k tid s)
    {waiters : Nat} (hpoint : (s.control t).point = .unlockCount waiters) :
    (s.memory.count ≠ 0 → MutexInv k tid ⟨{ s.memory with count := s.memory.count - 1 },
      Function.update s.control t ⟨(s.control t).locks - 1, .done 0⟩⟩) ∧
    (¬s.memory.count ≠ 0 → MutexInv k tid ⟨s.memory,
      Function.update s.control t ((s.control t).go (.swap waiters))⟩) := by
  have hsensible := h.sensible t
  unfold MutexThread.Sensible at hsensible
  rw [hpoint] at hsensible
  obtain ⟨htype, hpos⟩ := hsensible
  obtain ⟨-, hlocks, -, hle, -⟩ := h.agrees.of_locks hpos
  refine ⟨fun hcount => ?_, fun hcount => ?_⟩
  · rw [show (s.control t).locks - 1 = s.memory.count - 1 + 1 by omega]
    exact h.relock hcard htype hpos (by omega) (by rw [hpoint]; rfl) (by rw [hpoint]; rfl)
  · refine h.goes hcard hpoint ?_ rfl rfl (Or.inr (Nat.zero_le _))
      (fun hu => Or.inl (by cases waiters <;> first | rfl | cases hu))
    show (s.control t).locks = 1
    omega

/-- An access of a thread keeps the invariant. -/
theorem MutexInv.run (hid : Identifiers tid) (hcard : Fintype.card T < 0x100000000)
    (h : MutexInv k tid s) {m : MutexMemory} {c : MutexThread}
    (hrun : (s.control t).run k (tid t) s.memory = some (m, c)) :
    MutexInv k tid ⟨m, Function.update s.control t c⟩ := by
  have hsensible := h.sensible t
  unfold MutexThread.Sensible at hsensible
  unfold MutexThread.run at hrun
  cases hpoint : (s.control t).point with
  | done result | wake =>
      rw [hpoint] at hrun
      cases hrun
  | cas attempt =>
      rw [hpoint] at hrun hsensible
      simp only [Option.some.injEq] at hrun
      split at hrun
      · rename_i hfree
        cases hrun
        exact h.take hid hcard hfree (Or.inl (if_pos hsensible).symm) (by rw [hpoint]; rfl)
      · rename_i hheld
        cases hrun
        refine h.busy hcard attempt hheld (by rw [hpoint]; rfl) fun htype => ?_
        rw [hsensible] at htype
        cases htype
  | owner attempt =>
      rw [hpoint] at hrun
      cases hrun
      exact h.owner hid hcard hpoint
  | recurse attempt =>
      rw [hpoint] at hrun
      simp only [Option.some.injEq] at hrun
      split at hrun
      · cases hrun
        exact h.goes hcard hpoint trivial rfl rfl (Or.inr (Nat.zero_le _)) (fun hu => by cases hu)
      · rename_i hroom
        cases hrun
        exact h.recurse hcard hpoint hroom
  | tryWaiters attempt =>
      rw [hpoint] at hrun hsensible
      cases hrun
      have hlt := hid.lt t
      refine h.goes hcard hpoint ⟨hsensible.1, hsensible.2, ?_⟩ rfl rfl
        (Or.inr (by cases attempt <;> exact Nat.le_refl _)) (fun hu => by cases hu)
      split
      · refine Or.inr ?_
        unfold flagged
        rw [if_pos (by omega)]
      · exact Or.inl rfl
  | casOwner attempt new =>
      rw [hpoint] at hrun hsensible
      simp only [Option.some.injEq] at hrun
      obtain ⟨htype, hlocks, hnew⟩ := hsensible
      split at hrun
      · rename_i hfree
        cases hrun
        refine h.take hid hcard hfree ?_ (by rw [hpoint]; rfl)
        rwa [MutexKind.word_of_type htype]
      · rename_i hheld
        cases hrun
        exact h.busy hcard attempt hheld (by rw [hpoint]; rfl) fun _ => hlocks
  | spin spins =>
      rw [hpoint] at hrun hsensible
      cases hrun
      split
      · exact h.retry hcard (by rw [hpoint]; rfl)
      · exact h.goes hcard hpoint hsensible rfl rfl (Or.inr (Nat.zero_le _)) (fun hu => by cases hu)
  | spinWaiters spins =>
      rw [hpoint] at hrun hsensible
      cases hrun
      split
      · exact h.retry hcard (by rw [hpoint]; rfl)
      · split
        · exact h.retry hcard (by rw [hpoint]; rfl)
        · exact h.goes hcard hpoint hsensible rfl rfl (Or.inr (Nat.zero_le _))
            (fun hu => by cases hu)
  | look =>
      rw [hpoint] at hrun
      cases hrun
      exact h.look hid hcard hpoint
  | count r =>
      rw [hpoint] at hrun hsensible
      simp only [Option.some.injEq, Prod.mk.injEq] at hrun
      obtain ⟨rfl, rfl⟩ := hrun
      refine h.pass hsensible ?_ (Or.inl rfl) (fun hu => by cases hu)
      exact h.queue.access hcard MutexThread.counted_le MutexThread.sleeping_le
        (Or.inr (Or.inl ⟨rfl, by rw [MutexThread.counted, hpoint]; rfl, rfl⟩))
        (.aside rfl (by rw [MutexThread.attending, hpoint]; rfl))
  | mark r =>
      rw [hpoint] at hrun hsensible
      simp only [Option.some.injEq, Prod.mk.injEq] at hrun
      obtain ⟨rfl, rfl⟩ := hrun
      split
      · rename_i hsame
        subst hsame
        exact h.mark hid hcard hpoint
      · exact h.goes hcard hpoint ⟨(flagged_spec hsensible.2.1).1, hsensible.2.2⟩ rfl rfl
          (Or.inr (Nat.zero_le _)) (fun hu => by cases hu)
  | wait r point =>
      rw [hpoint] at hrun
      obtain ⟨c, hturn, hnext⟩ := Option.map_eq_some_iff.mp hrun
      cases hnext
      exact h.waits hcard hpoint hturn
  | leave r =>
      rw [hpoint] at hrun
      simp only [Option.some.injEq, Prod.mk.injEq] at hrun
      obtain ⟨rfl, rfl⟩ := hrun
      exact h.leave hcard hpoint
  | unlock =>
      rw [hpoint] at hrun
      cases hrun
      exact h.unlocks hcard hpoint
  | unlockOwner waiters =>
      rw [hpoint] at hrun
      cases hrun
      exact h.unlockOwner hid hcard hpoint
  | unlockCount waiters =>
      rw [hpoint] at hrun
      simp only [Option.some.injEq] at hrun
      split at hrun
      · rename_i hcount
        cases hrun
        exact (h.unlockCount hcard hpoint).1 hcount
      · rename_i hcount
        cases hrun
        exact (h.unlockCount hcard hpoint).2 hcount
  | swap waiters =>
      rw [hpoint] at hrun
      cases hrun
      exact h.release hcard hpoint

/-- What a caller does keeps the invariant. -/
theorem MutexInv.calls (hcard : Fintype.card T < 0x100000000) (h : MutexInv k tid s)
    {c : MutexThread} (hcall : k.Calls (s.control t) c) :
    MutexInv k tid ⟨s.memory, Function.update s.control t c⟩ := by
  obtain ⟨hc, hcalls⟩ := hcall
  have hsensible := h.sensible t
  unfold MutexThread.Sensible at hsensible
  unfold MutexKind.calls at hcalls
  rw [hc]
  split at hcalls
  · rename_i attempt hpoint hnext
    rw [hnext]
    have htype : k.type = .normal := by
      by_contra htype
      simp [htype] at hcalls
    exact h.goes hcard hpoint htype rfl rfl (Or.inr (Nat.zero_le _)) (fun hu => by cases hu)
  · rename_i attempt hpoint hnext
    rw [hnext]
    have htype : k.type ≠ .normal := by
      intro htype
      simp [htype] at hcalls
    exact h.goes hcard hpoint htype rfl rfl (Or.inr (Nat.zero_le _)) (fun hu => by cases hu)
  · rename_i hpoint hnext
    rw [hnext]
    refine h.goes hcard hpoint (fun htype => ?_) rfl rfl (Or.inr (Nat.zero_le _))
      (fun hu => by cases hu)
    simp [htype] at hcalls
    exact hcalls
  · rename_i r r' hpoint hnext
    rw [hpoint] at hsensible
    rw [hnext]
    exact h.goes hcard hpoint hsensible.2 rfl rfl (Or.inr (Nat.zero_le _)) (fun hu => by cases hu)
  · cases hcalls

omit [Fintype T] [DecidableEq T] in
theorem MutexThread.asleep_iff {c : MutexThread} :
    c.asleep = true ↔ ∃ r, c.point = .wait r .asleep := by
  unfold MutexThread.asleep
  split
  · rename_i r hpoint
    exact iff_of_true rfl ⟨r, hpoint⟩
  · rename_i hother
    refine iff_of_false Bool.false_ne_true ?_
    rintro ⟨r, hpoint⟩
    exact hother r hpoint

omit [Fintype T] [DecidableEq T] in
theorem MutexThread.sleeping_of_awake {c : MutexThread} (hawake : c.asleep = false) :
    c.sleeping = 0 := by
  obtain ⟨locks, point⟩ := c
  cases point with
  | wait r point => cases point <;> first | rfl | cases hawake
  | _ => rfl

/-- A thread that no longer sleeps. -/
theorem MutexInv.awakes (hcard : Fintype.card T < 0x100000000) (h : MutexInv k tid s)
    (hasleep : (s.control t).asleep = true) :
    MutexInv k tid ⟨s.memory, Function.update s.control t (s.control t).roused⟩ ∧
      MutexInv k tid ⟨s.memory, Function.update s.control t (s.control t).stirred⟩ ∧
      (s.control t).roused.attending = 1 := by
  obtain ⟨r, hpoint⟩ := MutexThread.asleep_iff.mp hasleep
  have hsensible := h.sensible t
  unfold MutexThread.Sensible at hsensible
  unfold MutexThread.roused MutexThread.stirred
  rw [hpoint] at hsensible ⊢
  refine ⟨?_, ?_, rfl⟩
  · exact h.goes hcard hpoint hsensible.2 rfl rfl (Or.inr (Nat.zero_le _)) (fun hu => by cases hu)
  · exact h.goes hcard hpoint hsensible rfl rfl (Or.inr (Nat.zero_le _)) (fun hu => by cases hu)

/-- The host does not let a thread sleep. -/
theorem MutexInv.refuse (hcard : Fintype.card T < 0x100000000) (h : MutexInv k tid s)
    {c : MutexThread} (hrefused : (s.control t).refused s.memory = some c) :
    MutexInv k tid ⟨s.memory, Function.update s.control t c⟩ := by
  have hsensible := h.sensible t
  unfold MutexThread.Sensible at hsensible
  unfold MutexThread.refused at hrefused
  split at hrefused
  · rename_i r point hpoint
    rw [hpoint] at hsensible
    obtain ⟨rfl, -, rfl⟩ := TimedPoint.refused_cases hrefused
    exact h.goes hcard hpoint hsensible.2 rfl rfl (Or.inr (Nat.zero_le _)) (fun hu => by cases hu)
  · cases hrefused

/-- A thread has woken whom it had to wake. -/
theorem MutexInv.woken (hcard : Fintype.card T < 0x100000000) (h : MutexInv k tid s)
    (hpoint : (s.control t).point = .wake)
    (hother : total MutexThread.sleeping s.control = 0 ∨
      ∃ u, u ≠ t ∧ 0 < (s.control u).attending) :
    MutexInv k tid ⟨s.memory, Function.update s.control t ((s.control t).go (.done 0))⟩ := by
  refine h.pass trivial ?_ (Or.inl rfl) (fun hu => by cases hu)
  refine h.queue.step hcard MutexThread.counted_le
    (Or.inl ⟨rfl, by rw [MutexThread.counted, MutexThread.counted, hpoint]; rfl⟩)
    (Or.inr (Or.inr ⟨rfl, ?_⟩))
  rcases hother with hnone | hattending
  · exact Or.inl hnone
  · exact Or.inr (Or.inl hattending)

omit [Fintype T] [DecidableEq T] in
theorem pthreadMutex_wakes {c c' : MutexThread} {wake : Wake}
    (hwakes : (pthreadMutex k tid).wakes c = some (wake, c')) :
    wake = .one ∧ c.point = .wake ∧ c' = c.go (.done 0) := by
  unfold pthreadMutex at hwakes
  dsimp only at hwakes
  split at hwakes
  · rename_i hpoint
    cases hwakes
    exact ⟨rfl, hpoint, rfl⟩
  · cases hwakes

/-- Every step keeps the invariant. -/
theorem MutexInv.step (hid : Identifiers tid) (hcard : Fintype.card T < 0x100000000)
    {s' : MutexState T} (h : MutexInv k tid s)
    (hstep : FutexThreads.Step (pthreadMutex k tid) s t s') : MutexInv k tid s' := by
  cases hstep with
  | run hrun => exact h.run hid hcard hrun
  | call hcall => exact h.calls hcard hcall
  | stir hasleep hc =>
      obtain ⟨hroused, hstirred, -⟩ := h.awakes hcard hasleep
      rcases hc with rfl | rfl
      · exact hstirred
      · exact hroused
  | refuse hrefused => exact h.refuse hcard hrefused
  | @wakeOne sleeper c hwakes hne hasleep =>
      obtain ⟨-, hpoint, rfl⟩ := pthreadMutex_wakes hwakes
      obtain ⟨hroused, -, hattends⟩ := h.awakes hcard hasleep
      have hself : Function.update s.control sleeper (s.control sleeper).roused t = s.control t :=
        Function.update_of_ne hne.symm _ _
      have hwoken := hroused.woken (t := t) hcard (by dsimp only; rw [hself]; exact hpoint)
        (Or.inr ⟨sleeper, hne, by dsimp only; rw [Function.update_self]; omega⟩)
      dsimp only at hwoken
      rw [hself] at hwoken
      exact hwoken
  | wakeNone hwakes hnone =>
      obtain ⟨-, hpoint, rfl⟩ := pthreadMutex_wakes hwakes
      exact h.woken hcard hpoint (Or.inl (Finset.sum_eq_zero fun u _ =>
        MutexThread.sleeping_of_awake (hnone u)))
  | wakeAll hwakes => cases (pthreadMutex_wakes hwakes).1

theorem mutexInit_reaches {labels : List T} (hid : Identifiers tid)
    (hcard : Fintype.card T < 0x100000000)
    (hrun : Run (FutexThreads.Step (pthreadMutex k tid)) mutexInit labels s) : MutexInv k tid s :=
  hrun.preserves (fun h hstep => h.step hid hcard hstep) (mutexInit_inv k tid)

/-- One thread at most has the mutex.  The word says which one, and `_m_count` how often it has
locked the mutex; only a normal mutex can be waited for by the thread that has it. -/
theorem pthreadMutex_exclusive {labels : List T} (hid : Identifiers tid)
    (hcard : Fintype.card T < 0x100000000)
    (hrun : Run (FutexThreads.Step (pthreadMutex k tid)) mutexInit labels s) :
    (∀ t u, 0 < (s.control t).locks → 0 < (s.control u).locks → t = u) ∧
    (∀ t, 0 < (s.control t).locks → s.memory.lock % 0x80000000 = k.word (tid t) ∧
      (s.control t).locks = s.memory.count + 1 ∧ s.memory.count ≤ 0x7fffffff ∧
        (k.type ≠ .recursive → (s.control t).locks = 1)) ∧
    ((∀ t, (s.control t).locks = 0) → s.memory.lock = 0) ∧
    ∀ t, (s.control t).asleep = true → k.type ≠ .normal → (s.control t).locks = 0 := by
  have h := mutexInit_reaches hid hcard hrun
  refine ⟨fun t u ht hu => ?_, fun t ht => ?_, fun hnone => ?_, fun t hasleep htype => ?_⟩
  · by_contra hne
    have hzero := (h.agrees.of_locks ht).2.2.2.2 u (Ne.symm hne)
    omega
  · obtain ⟨hlock, hlocks, hcount, hle, -⟩ := h.agrees.of_locks ht
    have hword := hid.word_bounds k t
    refine ⟨by omega, hlocks, hle, fun htype => ?_⟩
    have hzero := hcount htype
    omega
  · cases h.agrees with
    | free hlock => exact hlock
    | held t hlock hlocks =>
        have hzero := hnone t
        omega
  · obtain ⟨r, hpoint⟩ := MutexThread.asleep_iff.mp hasleep
    have hsensible := h.sensible t
    unfold MutexThread.Sensible at hsensible
    rw [hpoint] at hsensible
    exact hsensible.2 htype

omit [Fintype T] [DecidableEq T] in
/-- An attempt takes a mutex that is free. -/
theorem MutexKind.trylock_alone (hid : Identifiers tid) (attempt : MutexTry) {m : MutexMemory}
    (hfree : m.lock = 0) {locks : Nat} {point : MutexPoint}
    (hpoint : point = k.trylock attempt ∨ point = .tryWaiters attempt ∨
      ∃ new, point = .casOwner attempt new) :
    ∃ n ≤ 3, ∃ m' c', (pthreadMutex k tid).alone t n m ⟨locks, point⟩ = some (m', c') ∧
      c'.point = .done 0 ∧ c'.locks = locks + 1 := by
  obtain ⟨lock, waiters, count⟩ := m
  obtain rfl : lock = 0 := hfree
  have htid := hid.pos t
  have hcas : ∀ new, (pthreadMutex k tid).alone t 1 ⟨0, waiters, count⟩
      ⟨locks, .casOwner attempt new⟩ = some (⟨new, waiters, count⟩, ⟨locks + 1, .done 0⟩) :=
    fun new => by simp [FutexProgram.alone, pthreadMutex, MutexThread.run]
  have hwaiters : (pthreadMutex k tid).alone t 2 ⟨0, waiters, count⟩
      ⟨locks, .tryWaiters attempt⟩ = some (⟨if waiters ≠ 0 then flagged (tid t) else tid t,
        waiters, count⟩, ⟨locks + 1, .done 0⟩) := by
    simp [FutexProgram.alone, pthreadMutex, MutexThread.run, MutexThread.go]
  rcases hpoint with rfl | rfl | ⟨new, rfl⟩
  · by_cases htype : k.type = .normal
    · refine ⟨1, by decide, ⟨EBUSY, waiters, count⟩, ⟨locks + 1, .done 0⟩, ?_, rfl, rfl⟩
      simp [FutexProgram.alone, pthreadMutex, MutexThread.run, MutexKind.trylock, htype]
    · have howner : (pthreadMutex k tid).alone t 1 ⟨0, waiters, count⟩
          ⟨locks, k.trylock attempt⟩ = some (⟨0, waiters, count⟩,
            ⟨locks, if k.pshared then .tryWaiters attempt else .casOwner attempt (tid t)⟩) := by
        simp [FutexProgram.alone, pthreadMutex, MutexThread.run, MutexThread.go,
          MutexKind.trylock, htype, htid.ne]
      by_cases hpshared : k.pshared = true
      · rw [if_pos hpshared] at howner
        exact ⟨1 + 2, by decide, _, _, (FutexProgram.alone_add howner).trans hwaiters, rfl, rfl⟩
      · rw [if_neg hpshared] at howner
        exact ⟨1 + 1, by decide, _, _, (FutexProgram.alone_add howner).trans (hcas _), rfl, rfl⟩
  · exact ⟨2, by decide, _, _, hwaiters, rfl, rfl⟩
  · exact ⟨1, by decide, _, _, hcas new, rfl, rfl⟩

omit [Fintype T] [DecidableEq T] in
/-- A thread that was woken takes a mutex that is free. -/
theorem MutexThread.attending_alone (hid : Identifiers tid) {m : MutexMemory} {c : MutexThread}
    (hsensible : c.Sensible k (tid t)) (hfree : m.lock = 0) (hattending : 0 < c.attending)
    (hwake : c.point ≠ .wake) :
    ∃ n ≤ 4, ∃ m' c', (pthreadMutex k tid).alone t n m c = some (m', c') ∧
      c'.point = .done 0 ∧ c'.locks = c.locks + 1 := by
  obtain ⟨locks, point⟩ := c
  have htry : (point = k.trylock .again ∨ point = .tryWaiters .again ∨
      ∃ new, point = .casOwner .again new) →
      ∃ n ≤ 4, ∃ m' c', (pthreadMutex k tid).alone t n m ⟨locks, point⟩ = some (m', c') ∧
        c'.point = .done 0 ∧ c'.locks = locks + 1 := by
    intro hpoint
    obtain ⟨n, hn, htakes⟩ := MutexKind.trylock_alone (t := t) hid .again hfree hpoint
    exact ⟨n, by omega, htakes⟩
  cases point with
  | wake => exact absurd rfl hwake
  | leave r =>
      cases r with
      | none =>
          have hleave : (pthreadMutex k tid).alone t 1 m ⟨locks, .leave none⟩ =
              some ({ m with waiters := (m.waiters + 0xffffffff) % 0x100000000 },
                ⟨locks, k.trylock .again⟩) := by
            simp [FutexProgram.alone, pthreadMutex, MutexThread.run, MutexThread.go]
          have hfree' : { m with waiters := (m.waiters + 0xffffffff) % 0x100000000 }.lock = 0 :=
            hfree
          obtain ⟨n, hn, m', c', htakes, hdone⟩ :=
            @MutexKind.trylock_alone _ k tid t hid .again _ hfree' locks _ (Or.inl rfl)
          exact ⟨1 + n, by omega, m', c', (FutexProgram.alone_add hleave).trans htakes, hdone⟩
      | some r => exact absurd hattending (Nat.lt_irrefl 0)
  | cas attempt =>
      cases attempt with
      | again => exact htry (Or.inl (if_pos hsensible).symm)
      | _ => exact absurd hattending (Nat.lt_irrefl 0)
  | owner attempt =>
      cases attempt with
      | again => exact htry (Or.inl (if_neg hsensible).symm)
      | _ => exact absurd hattending (Nat.lt_irrefl 0)
  | tryWaiters attempt =>
      cases attempt with
      | again => exact htry (Or.inr (Or.inl rfl))
      | _ => exact absurd hattending (Nat.lt_irrefl 0)
  | casOwner attempt new =>
      cases attempt with
      | again => exact htry (Or.inr (Or.inr ⟨new, rfl⟩))
      | _ => exact absurd hattending (Nat.lt_irrefl 0)
  | _ => exact absurd hattending (Nat.lt_irrefl 0)

/-- No wake is lost.  While the mutex is free, a thread sleeps only if a wake is still to come or
a thread that is awake takes the mutex by itself. -/
theorem pthreadMutex_progress {labels : List T} (hid : Identifiers tid)
    (hcard : Fintype.card T < 0x100000000)
    (hrun : Run (FutexThreads.Step (pthreadMutex k tid)) mutexInit labels s)
    (hasleep : (s.control t).asleep = true) (hfree : s.memory.lock = 0) :
    (∃ u, (s.control u).point = .wake) ∨
      ∃ u, ∃ n ≤ 4, ∃ m c, (pthreadMutex k tid).alone u n s.memory (s.control u) = some (m, c) ∧
        c.point = .done 0 ∧ c.locks = (s.control u).locks + 1 := by
  have h := mutexInit_reaches hid hcard hrun
  obtain ⟨r, hpoint⟩ := MutexThread.asleep_iff.mp hasleep
  have hsleeping : 0 < (s.control t).sleeping := by
    rw [MutexThread.sleeping, hpoint]
    exact Nat.one_pos
  obtain ⟨u, hu⟩ := h.queue.attended.attending (not_not_intro hfree) hsleeping
  by_cases hwake : (s.control u).point = .wake
  · exact Or.inl ⟨u, hwake⟩
  · exact Or.inr ⟨u, MutexThread.attending_alone hid (h.sensible u) hfree hu hwake⟩

end

namespace MutexWitness

def recursive : MutexKind := ⟨.recursive, false⟩

theorem tid_identifiers : Identifiers Caller.tid where
  pos := Caller.tid_pos
  lt t := by cases t <;> decide
  inj := Caller.tid_inj

/-- The second thread locks twice, and the first one falls asleep. -/
def schedule : List (Move MutexThread Caller) :=
  [.call .second ⟨0, .owner .first⟩, .alone .second 2, .call .second ⟨1, .owner .first⟩,
    .alone .second 2, .call .first ⟨0, .owner .first⟩, .alone .first 207]

def locked : Option (MutexState Caller) :=
  replay (pthreadMutex recursive Caller.tid) mutexInit schedule

/-- The second thread has unlocked twice. -/
def unlocked : Option (MutexState Caller) :=
  replay (pthreadMutex recursive Caller.tid) mutexInit (schedule ++
    [.call .second ⟨2, .unlock⟩, .alone .second 3, .call .second ⟨1, .unlock⟩, .alone .second 4])

theorem locked_exclusive : ∃ s, locked = some s ∧ (s.control .second).locks = s.memory.count + 1 ∧
    (s.control .second).locks = 2 ∧ (s.control .first).locks = 0 := by
  obtain ⟨s, hs⟩ := Option.isSome_iff_exists.mp (show locked.isSome = true by decide +kernel)
  obtain ⟨labels, hrun⟩ := replay_run hs
  have hlocks : ∀ s ∈ locked, (s.control .second).locks = 2 := by decide +kernel
  have hasleep : ∀ s ∈ locked, (s.control .first).asleep = true := by decide +kernel
  obtain ⟨-, hword, -, hothers⟩ := pthreadMutex_exclusive tid_identifiers (by decide) hrun
  have htwo := hlocks s hs
  exact ⟨s, hs, (hword .second (by omega)).2.1, htwo, hothers .first (hasleep s hs) (by decide)⟩

theorem unlocked_progress : ∃ s, unlocked = some s ∧ ((∃ u, (s.control u).point = .wake) ∨
    ∃ u, ∃ n ≤ 4, ∃ m c,
      (pthreadMutex recursive Caller.tid).alone u n s.memory (s.control u) = some (m, c) ∧
        c.point = .done 0 ∧ c.locks = (s.control u).locks + 1) := by
  obtain ⟨s, hs⟩ := Option.isSome_iff_exists.mp (show unlocked.isSome = true by decide +kernel)
  obtain ⟨labels, hrun⟩ := replay_run hs
  have hasleep : ∀ s ∈ unlocked, (s.control .first).asleep = true := by decide +kernel
  have hfree : ∀ s ∈ unlocked, s.memory.lock = 0 := by decide +kernel
  exact ⟨s, hs,
    pthreadMutex_progress tid_identifiers (by decide) hrun (hasleep s hs) (hfree s hs)⟩

end MutexWitness

end Sync

end WasixLibc
