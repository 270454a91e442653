/-
The lock of the list of threads, which its owner may take again.

`__tl_sync` does not take the lock.  It waits until the owner has left, and then passes
on the wake that it may have got in place of a thread that wants the lock.
-/
import WasixLibc.WaitQueue

namespace WasixLibc

namespace Sync

open FutexThreads

/-- `__thread_list_lock`, `tl_lock_waiters` and `tl_lock_count`.  The count is an `int` and holds
for a lock that is taken fewer than 2^31 times again. -/
structure ListLock where
  lock : Nat
  waiters : Nat
  count : Nat
deriving Repr, DecidableEq

/-- Where a thread is in the functions on the lock. -/
inductive ListLockPoint where
  | outside
  /-- `val = __thread_list_lock` in `__tl_lock` -/
  | read
  /-- `tl_lock_count++` -/
  | recurse
  | cas
  | wait (val : Nat) (point : CountedWait)
  /-- `tl_lock_count` in `__tl_unlock` -/
  | unlock
  | store
  | readWaiters
  | wake
  /-- `val = __thread_list_lock` in `__tl_sync` -/
  | sync
  | syncWait (val : Nat) (point : CountedWait)
deriving Repr, DecidableEq

/-- A thread, with how often it has taken the lock and not given it back. -/
structure ListLockThread where
  locks : Nat
  point : ListLockPoint
deriving Repr, DecidableEq

def ListLockThread.go (c : ListLockThread) (point : ListLockPoint) : ListLockThread :=
  { c with point }

/-- One access to the lock of a thread with the identifier `tid`. -/
def ListLockThread.run (tid : Nat) (m : ListLock) (c : ListLockThread) :
    Option (ListLock × ListLockThread) :=
  match c.point with
  | .read => some (m, c.go (if m.lock = tid then .recurse else .cas))
  | .recurse => some ({ m with count := m.count + 1 }, ⟨c.locks + 1, .outside⟩)
  | .cas =>
      some <|
        if m.lock = 0 then ({ m with lock := tid }, ⟨c.locks + 1, .outside⟩)
        else (m, c.go (.wait m.lock .start))
  | .wait val point =>
      (point.turn (m.lock = val) m.waiters (fun point => c.go (.wait val point))
        (c.go .cas)).map fun next => ({ m with waiters := next.1 }, next.2)
  | .unlock =>
      some <|
        if m.count ≠ 0 then ({ m with count := m.count - 1 }, ⟨c.locks - 1, .outside⟩)
        else (m, c.go .store)
  | .store => some ({ m with lock := 0 }, ⟨c.locks - 1, .readWaiters⟩)
  | .readWaiters => some (m, c.go (if m.waiters ≠ 0 then .wake else .outside))
  | .sync => some (m, c.go (if m.lock = 0 then .outside else .syncWait m.lock .start))
  | .syncWait val point =>
      (point.turn (m.lock = val) m.waiters (fun point => c.go (.syncWait val point))
        (c.go .readWaiters)).map fun next => ({ m with waiters := next.1 }, next.2)
  | .outside | .wake => none

def ListLockThread.asleep (c : ListLockThread) : Bool :=
  match c.point with
  | .wait _ .asleep | .syncWait _ .asleep => true
  | _ => false

def ListLockThread.roused (c : ListLockThread) : ListLockThread :=
  match c.point with
  | .wait val .asleep => c.go (.wait val .test)
  | .syncWait val .asleep => c.go (.syncWait val .test)
  | _ => c

def ListLockThread.refused (m : ListLock) (c : ListLockThread) : Option ListLockThread :=
  match c.point with
  | .wait val point => point.refused (m.lock = val) (fun point => c.go (.wait val point))
  | .syncWait val point => point.refused (m.lock = val) (fun point => c.go (.syncWait val point))
  | _ => none

/-- What a caller may do; the lock is given back by the thread that has it. -/
def ListLockThread.Calls (c c' : ListLockThread) : Prop :=
  c.point = .outside ∧
    (c' = c.go .read ∨ c' = c.go .sync ∨ c' = c.go .unlock ∧ 0 < c.locks)

/-- `__tl_lock`, `__tl_unlock` and `__tl_sync` -/
def listLock {T : Type} (tid : T → Nat) : FutexProgram ListLock ListLockThread T where
  run t := ListLockThread.run (tid t)
  call := ListLockThread.Calls
  asleep := ListLockThread.asleep
  hears _ := ListLockThread.asleep
  roused := ListLockThread.roused
  stirred := ListLockThread.roused
  refused := ListLockThread.refused
  wakes c :=
    match c.point with
    | .wake => some (.one, c.go .outside)
    | _ => none

instance {T : Type} (tid : T → Nat) (c c' : ListLockThread) :
    Decidable ((listLock tid).call c c') :=
  inferInstanceAs (Decidable (_ ∧ (_ ∨ _ ∨ _ ∧ _)))

/-! The invariant -/

/-- The thread is one of those in `tl_lock_waiters`. -/
def ListLockThread.counted (c : ListLockThread) : Nat :=
  match c.point with
  | .wait _ point | .syncWait _ point => point.counted
  | _ => 0

def ListLockThread.sleeping (c : ListLockThread) : Nat :=
  match c.point with
  | .wait _ .asleep | .syncWait _ .asleep => 1
  | _ => 0

/-- The thread will try to take the lock, or look for who waits for it, whatever the host does. -/
def ListLockThread.attending (c : ListLockThread) : Nat :=
  match c.point with
  | .wait _ point | .syncWait _ point => if point.free then 1 else 0
  | .cas | .readWaiters | .wake => 1
  | _ => 0

/-- What a thread keeps in its variables, and what it has. -/
def ListLockThread.Sensible (c : ListLockThread) : Prop :=
  match c.point with
  | .recurse | .unlock => 0 < c.locks
  | .store => c.locks = 1
  | .cas => c.locks = 0
  | .wait val _ => val ≠ 0 ∧ c.locks = 0
  | .syncWait val _ => val ≠ 0
  | _ => True

/-- What the lock says of the thread that has it. -/
inductive ListLockAgrees {T : Type} (tid : T → Nat) (m : ListLock) (locks : T → Nat) : Prop
  | free (hlock : m.lock = 0) (hcount : m.count = 0) (hnone : ∀ t, locks t = 0)
  | held (t : T) (hlock : m.lock = tid t) (hlocks : locks t = m.count + 1)
      (hother : ∀ u, u ≠ t → locks u = 0)

variable {T : Type} [Fintype T]

abbrev ListLockState (T : Type) := FutexState ListLock ListLockThread T

/-- The invariant of the lock. -/
structure ListLockInv (tid : T → Nat) (s : ListLockState T) : Prop where
  agrees : ListLockAgrees tid s.memory fun t => (s.control t).locks
  sensible : ∀ t, (s.control t).Sensible
  queue : CountedQueue ListLockThread.counted ListLockThread.sleeping ListLockThread.attending
    (s.memory.lock ≠ 0) s.memory.waiters s.control

/-- Nobody has taken the lock. -/
def listLockInit : ListLockState T := ⟨⟨0, 0, 0⟩, fun _ => ⟨0, .outside⟩⟩

theorem listLockInit_inv (tid : T → Nat) : ListLockInv tid (listLockInit : ListLockState T) where
  agrees := .free rfl rfl fun _ => rfl
  sensible _ := trivial
  queue := ⟨by simp [listLockInit, total, ListLockThread.counted],
    Or.inr (Or.inl (by simp [listLockInit, total, ListLockThread.sleeping]))⟩

theorem ListLockThread.counted_le (c : ListLockThread) : c.counted ≤ 1 := by
  obtain ⟨locks, point⟩ := c
  cases point with
  | wait val point => cases point <;> simp [counted]
  | syncWait val point => cases point <;> simp [counted]
  | _ => simp [counted]

theorem ListLockThread.sleeping_le (c : ListLockThread) : c.sleeping ≤ c.counted := by
  obtain ⟨locks, point⟩ := c
  cases point with
  | wait val point => cases point <;> simp [counted, sleeping]
  | syncWait val point => cases point <;> simp [counted, sleeping]
  | _ => simp [sleeping]

section

variable {tid : T → Nat} {s : ListLockState T} {t : T}

omit [Fintype T] in
theorem ListLockAgrees.of_locks {m : ListLock} {locks : T → Nat} (h : ListLockAgrees tid m locks)
    (hpos : 0 < locks t) :
    m.lock = tid t ∧ locks t = m.count + 1 ∧ ∀ u, u ≠ t → locks u = 0 := by
  cases h with
  | free hlock hcount hnone => exact absurd (hnone t) (Nat.pos_iff_ne_zero.mp hpos)
  | held u hlock hlocks hother =>
      obtain rfl : t = u := by
        by_contra hne
        exact absurd (hother t hne) (Nat.pos_iff_ne_zero.mp hpos)
      exact ⟨hlock, hlocks, hother⟩

omit [Fintype T] in
theorem ListLockAgrees.of_free {m : ListLock} {locks : T → Nat} (hpos : ∀ t, 0 < tid t)
    (h : ListLockAgrees tid m locks) (hfree : m.lock = 0) : m.count = 0 ∧ ∀ t, locks t = 0 := by
  cases h with
  | free hlock hcount hnone => exact ⟨hcount, hnone⟩
  | held t hlock =>
      have htid := hpos t
      omega

omit [Fintype T] in
/-- The thread whose identifier is in the word has the lock. -/
theorem ListLockAgrees.owns {m : ListLock} {locks : T → Nat} (hpos : ∀ t, 0 < tid t)
    (hinj : ∀ t u, tid t = tid u → t = u) (h : ListLockAgrees tid m locks)
    (hown : m.lock = tid t) : 0 < locks t := by
  cases h with
  | free hlock =>
      have htid := hpos t
      omega
  | held u hlock hlocks =>
      obtain rfl : u = t := hinj u t (hlock.symm.trans hown)
      omega

variable [DecidableEq T]

theorem ListLockInv.sensible_update (h : ListLockInv tid s) {c : ListLockThread}
    (hsensible : c.Sensible) (u : T) : (Function.update s.control t c u).Sensible :=
  (Function.forall_update_iff s.control fun _ c => c.Sensible).mpr
    ⟨hsensible, fun u _ => h.sensible u⟩ u

omit [Fintype T] in
theorem listLocks_update (control : T → ListLockThread) (t : T) (c : ListLockThread) :
    (fun u => (Function.update control t c u).locks) =
      Function.update (fun u => (control u).locks) t c.locks :=
  Function.comp_update ListLockThread.locks control t c

/-- A thread goes on, and leaves the lock with who has it. -/
theorem ListLockInv.pass (h : ListLockInv tid s) {point : ListLockPoint} {waiters : Nat}
    (hsensible : ((s.control t).go point).Sensible)
    (hqueue : CountedQueue ListLockThread.counted ListLockThread.sleeping
      ListLockThread.attending (s.memory.lock ≠ 0) waiters
      (Function.update s.control t ((s.control t).go point))) :
    ListLockInv tid ⟨{ s.memory with waiters },
      Function.update s.control t ((s.control t).go point)⟩ where
  agrees := by
    have hlocks : (fun u => (Function.update s.control t ((s.control t).go point) u).locks) =
        fun u => (s.control u).locks := by
      rw [listLocks_update]
      exact Function.update_eq_self _ _
    dsimp only
    rw [hlocks]
    cases h.agrees with
    | free hlock hcount hnone => exact .free hlock hcount hnone
    | held u hlock hlocks hother => exact .held u hlock hlocks hother
  sensible := h.sensible_update hsensible
  queue := hqueue

/-- A thread that comes to the queue or leaves it as `__wait` says, or has nothing to do with it. -/
theorem ListLockInv.goes (hcard : Fintype.card T < 0x100000000) (h : ListLockInv tid s)
    {point : ListLockPoint} {waiters : Nat} (hsensible : ((s.control t).go point).Sensible)
    (hcounts : Counts s.memory.waiters (s.control t).counted waiters
      ((s.control t).go point).counted)
    (hminds : Minds ListLockThread.sleeping ListLockThread.attending (s.memory.lock ≠ 0)
      (s.memory.lock ≠ 0) s.memory.waiters (s.control t) ((s.control t).go point)) :
    ListLockInv tid ⟨{ s.memory with waiters },
      Function.update s.control t ((s.control t).go point)⟩ :=
  h.pass hsensible (h.queue.access hcard ListLockThread.counted_le ListLockThread.sleeping_le
    hcounts hminds)

/-- A thread that has found the lock free. -/
theorem ListLockInv.take (hpos : ∀ t, 0 < tid t) (hcard : Fintype.card T < 0x100000000)
    (h : ListLockInv tid s) (hfree : s.memory.lock = 0) (hpoint : (s.control t).point = .cas) :
    ListLockInv tid ⟨{ s.memory with lock := tid t },
      Function.update s.control t ⟨(s.control t).locks + 1, .outside⟩⟩ := by
  obtain ⟨hcount, hnone⟩ := h.agrees.of_free hpos hfree
  refine ⟨?_, h.sensible_update trivial, ?_⟩
  · dsimp only
    rw [listLocks_update]
    refine .held t rfl ?_ ?_
    · rw [Function.update_self, hcount, hnone t]
    · intro u hu
      rw [Function.update_of_ne hu]
      exact hnone u
  · exact h.queue.access hcard ListLockThread.counted_le ListLockThread.sleeping_le
      (Or.inl ⟨rfl, by rw [ListLockThread.counted, ListLockThread.counted, hpoint]⟩)
      (Or.inl (Nat.pos_iff_ne_zero.mp (hpos t)))

/-- The thread that has the lock takes it once more, or gives it back once. -/
theorem ListLockInv.relock (hcard : Fintype.card T < 0x100000000) (h : ListLockInv tid s) {n : Nat}
    (hlocks : 0 < (s.control t).locks)
    (hpoint : (s.control t).point = .recurse ∨ (s.control t).point = .unlock) :
    ListLockInv tid ⟨{ s.memory with count := n },
      Function.update s.control t ⟨n + 1, .outside⟩⟩ := by
  obtain ⟨hlock, -, hother⟩ := h.agrees.of_locks hlocks
  have hout : (s.control t).counted = 0 ∧ (s.control t).attending = 0 := by
    unfold ListLockThread.counted ListLockThread.attending
    rcases hpoint with hpoint | hpoint <;> rw [hpoint] <;> exact ⟨rfl, rfl⟩
  refine ⟨?_, h.sensible_update trivial, ?_⟩
  · dsimp only
    rw [listLocks_update]
    refine .held t hlock (Function.update_self ..) ?_
    intro u hu
    rw [Function.update_of_ne hu]
    exact hother u hu
  · exact h.queue.access hcard ListLockThread.counted_le ListLockThread.sleeping_le
      (Or.inl ⟨rfl, hout.1.symm⟩) (.aside rfl hout.2)

/-- A thread gives the lock back. -/
theorem ListLockInv.release (hcard : Fintype.card T < 0x100000000) (h : ListLockInv tid s)
    (hpoint : (s.control t).point = .store) :
    ListLockInv tid ⟨{ s.memory with lock := 0 },
      Function.update s.control t ⟨(s.control t).locks - 1, .readWaiters⟩⟩ := by
  have hone : (s.control t).locks = 1 := by
    have hsensible := h.sensible t
    unfold ListLockThread.Sensible at hsensible
    rwa [hpoint] at hsensible
  obtain ⟨-, hlocks, hother⟩ := h.agrees.of_locks (t := t) (by omega)
  refine ⟨.free rfl (by dsimp only; omega) fun u => ?_, h.sensible_update trivial, ?_⟩
  · dsimp only
    by_cases hut : u = t
    · subst hut
      rw [Function.update_self, hone]
    · rw [Function.update_of_ne hut]
      exact hother u hut
  · exact h.queue.access hcard ListLockThread.counted_le ListLockThread.sleeping_le
      (Or.inl ⟨rfl, by rw [ListLockThread.counted, ListLockThread.counted, hpoint]⟩)
      (Or.inr (Or.inl Nat.one_pos))

omit [Fintype T] [DecidableEq T] in
/-- What `__wait` does to the queue, for a thread that attends to it afterwards. -/
theorem ListLockThread.wait_minds {val waiters waiters' lock : Nat} {point : CountedWait}
    {stay : CountedWait → ListLockThread} {leave c old : ListLockThread} (hval : val ≠ 0)
    (hstay : ∀ next, (stay next).counted = next.counted ∧
      (next.free = true → (stay next).attending = 1))
    (hleave : leave.counted = 0 ∧ leave.attending = 1) (hold : old.counted = point.counted)
    (hturn : point.turn (lock = val) waiters stay leave = some (waiters', c)) :
    Counts waiters old.counted waiters' c.counted ∧
      Minds sleeping attending (lock ≠ 0) (lock ≠ 0) waiters old c := by
  refine ⟨?_, ?_⟩
  · rw [hold]
    exact CountedWait.turn_counts (fun next => (hstay next).1) hleave.1 hturn
  · obtain ⟨-, ⟨rfl, -⟩ | ⟨next, rfl, -, hasleep⟩⟩ := CountedWait.turn_cases hturn
    · exact Or.inr (Or.inl (by rw [hleave.2]; exact Nat.one_pos))
    · by_cases hfree : next.free = true
      · exact Or.inr (Or.inl (by rw [(hstay next).2 hfree]; exact Nat.one_pos))
      · have hlock : lock = val :=
          of_decide_eq_true (hasleep (CountedWait.not_free hfree)).1
        exact Or.inl (by omega)

/-- An access of a thread keeps the invariant. -/
theorem ListLockInv.run (hpos : ∀ t, 0 < tid t) (hinj : ∀ t u, tid t = tid u → t = u)
    (hcard : Fintype.card T < 0x100000000) (h : ListLockInv tid s) {m : ListLock}
    {c : ListLockThread} (hrun : (s.control t).run (tid t) s.memory = some (m, c)) :
    ListLockInv tid ⟨m, Function.update s.control t c⟩ := by
  have hsensible := h.sensible t
  have hout : ∀ {point : ListLockPoint}, (s.control t).point = point →
      (s.control t).counted = (⟨0, point⟩ : ListLockThread).counted ∧
        (s.control t).attending = (⟨0, point⟩ : ListLockThread).attending := by
    rintro point rfl
    exact ⟨rfl, rfl⟩
  unfold ListLockThread.Sensible at hsensible
  unfold ListLockThread.run at hrun
  cases hpoint : (s.control t).point with
  | outside | wake =>
      rw [hpoint] at hrun
      cases hrun
  | read =>
      rw [hpoint] at hrun
      cases hrun
      split
      · rename_i hown
        exact h.goes hcard (h.agrees.owns (t := t) hpos hinj hown)
          (Or.inl ⟨rfl, (hout hpoint).1.symm⟩)
          (.aside rfl (hout hpoint).2)
      · rename_i hother
        refine h.goes hcard ?_ (Or.inl ⟨rfl, (hout hpoint).1.symm⟩) (.aside rfl (hout hpoint).2)
        by_contra hlocks
        exact hother (h.agrees.of_locks (t := t) (Nat.pos_of_ne_zero hlocks)).1
  | recurse =>
      rw [hpoint] at hrun hsensible
      cases hrun
      rw [(h.agrees.of_locks hsensible).2.1]
      exact h.relock hcard hsensible (Or.inl hpoint)
  | cas =>
      rw [hpoint] at hrun hsensible
      simp only [Option.some.injEq] at hrun
      split at hrun
      · rename_i hfree
        cases hrun
        exact h.take hpos hcard hfree hpoint
      · rename_i hheld
        cases hrun
        exact h.goes hcard ⟨hheld, hsensible⟩ (Or.inl ⟨rfl, (hout hpoint).1.symm⟩) (Or.inl hheld)
  | wait val point =>
      rw [hpoint] at hrun hsensible
      obtain ⟨⟨waiters, c⟩, hturn, hnext⟩ := Option.map_eq_some_iff.mp hrun
      cases hnext
      obtain ⟨hcounts, hminds⟩ := ListLockThread.wait_minds hsensible.1
        (fun next => ⟨rfl, fun hfree => by rw [ListLockThread.attending]; exact if_pos hfree⟩)
        ⟨rfl, rfl⟩ (show (s.control t).counted = _ from (hout hpoint).1) hturn
      obtain ⟨-, ⟨rfl, -⟩ | ⟨next, rfl, -⟩⟩ := CountedWait.turn_cases hturn
      · exact h.goes hcard hsensible.2 hcounts hminds
      · exact h.goes hcard hsensible hcounts hminds
  | unlock =>
      rw [hpoint] at hrun hsensible
      simp only [Option.some.injEq] at hrun
      obtain ⟨-, hlocks, -⟩ := h.agrees.of_locks hsensible
      split at hrun
      · rename_i hcount
        cases hrun
        rw [show (s.control t).locks - 1 = s.memory.count - 1 + 1 by omega]
        exact h.relock hcard hsensible (Or.inr hpoint)
      · rename_i hcount
        cases hrun
        refine h.goes hcard ?_ (Or.inl ⟨rfl, (hout hpoint).1.symm⟩) (.aside rfl (hout hpoint).2)
        show (s.control t).locks = 1
        omega
  | store =>
      rw [hpoint] at hrun
      cases hrun
      exact h.release hcard hpoint
  | readWaiters =>
      rw [hpoint] at hrun
      cases hrun
      split
      · exact h.goes hcard trivial (Or.inl ⟨rfl, (hout hpoint).1.symm⟩)
          (Or.inr (Or.inl Nat.one_pos))
      · rename_i hnone
        exact h.goes hcard trivial (Or.inl ⟨rfl, (hout hpoint).1.symm⟩)
          (Or.inr (Or.inr ⟨rfl, Or.inl (not_not.mp hnone)⟩))
  | sync =>
      rw [hpoint] at hrun
      cases hrun
      split
      · exact h.goes hcard trivial (Or.inl ⟨rfl, (hout hpoint).1.symm⟩) (.aside rfl (hout hpoint).2)
      · rename_i hheld
        exact h.goes hcard hheld (Or.inl ⟨rfl, (hout hpoint).1.symm⟩) (Or.inl hheld)
  | syncWait val point =>
      rw [hpoint] at hrun hsensible
      obtain ⟨⟨waiters, c⟩, hturn, hnext⟩ := Option.map_eq_some_iff.mp hrun
      cases hnext
      obtain ⟨hcounts, hminds⟩ := ListLockThread.wait_minds hsensible
        (fun next => ⟨rfl, fun hfree => by rw [ListLockThread.attending]; exact if_pos hfree⟩)
        ⟨rfl, rfl⟩ (show (s.control t).counted = _ from (hout hpoint).1) hturn
      obtain ⟨-, ⟨rfl, -⟩ | ⟨next, rfl, -⟩⟩ := CountedWait.turn_cases hturn
      · exact h.goes hcard trivial hcounts hminds
      · exact h.goes hcard hsensible hcounts hminds

omit [Fintype T] [DecidableEq T] in
theorem ListLockThread.asleep_cases {c : ListLockThread} (hasleep : c.asleep = true) :
    ∃ val, c.point = .wait val .asleep ∨ c.point = .syncWait val .asleep := by
  unfold ListLockThread.asleep at hasleep
  split at hasleep
  · rename_i val hpoint
    exact ⟨val, Or.inl hpoint⟩
  · rename_i val hpoint
    exact ⟨val, Or.inr hpoint⟩
  · cases hasleep

omit [Fintype T] [DecidableEq T] in
theorem ListLockThread.sleeping_of_awake {c : ListLockThread} (hawake : c.asleep = false) :
    c.sleeping = 0 := by
  obtain ⟨locks, point⟩ := c
  cases point with
  | wait val point => cases point <;> first | rfl | cases hawake
  | syncWait val point => cases point <;> first | rfl | cases hawake
  | _ => rfl

/-- A thread that no longer sleeps attends to the queue. -/
theorem ListLockInv.rouse (hcard : Fintype.card T < 0x100000000) (h : ListLockInv tid s)
    (hasleep : (s.control t).asleep = true) :
    ListLockInv tid ⟨s.memory, Function.update s.control t (s.control t).roused⟩ ∧
      (s.control t).roused.attending = 1 := by
  have hsensible := h.sensible t
  unfold ListLockThread.Sensible at hsensible
  unfold ListLockThread.roused
  obtain ⟨val, hpoint | hpoint⟩ := ListLockThread.asleep_cases hasleep
  · rw [hpoint] at hsensible ⊢
    exact ⟨h.goes hcard hsensible
      (Or.inl ⟨rfl, by rw [ListLockThread.counted, ListLockThread.counted, hpoint]; rfl⟩)
      (Or.inr (Or.inl Nat.one_pos)), rfl⟩
  · rw [hpoint] at hsensible ⊢
    exact ⟨h.goes hcard hsensible
      (Or.inl ⟨rfl, by rw [ListLockThread.counted, ListLockThread.counted, hpoint]; rfl⟩)
      (Or.inr (Or.inl Nat.one_pos)), rfl⟩

/-- A thread that the host does not let sleep attends to the queue. -/
theorem ListLockInv.refuse (hcard : Fintype.card T < 0x100000000) (h : ListLockInv tid s)
    {c : ListLockThread} (hrefused : (s.control t).refused s.memory = some c) :
    ListLockInv tid ⟨s.memory, Function.update s.control t c⟩ := by
  have hsensible := h.sensible t
  unfold ListLockThread.Sensible at hsensible
  unfold ListLockThread.refused at hrefused
  split at hrefused
  · rename_i val point hpoint
    rw [hpoint] at hsensible
    obtain ⟨rfl, -, rfl⟩ := CountedWait.refused_cases hrefused
    exact h.goes hcard hsensible
      (Or.inl ⟨rfl, by rw [ListLockThread.counted, ListLockThread.counted, hpoint]; rfl⟩)
      (Or.inr (Or.inl Nat.one_pos))
  · rename_i val point hpoint
    rw [hpoint] at hsensible
    obtain ⟨rfl, -, rfl⟩ := CountedWait.refused_cases hrefused
    exact h.goes hcard hsensible
      (Or.inl ⟨rfl, by rw [ListLockThread.counted, ListLockThread.counted, hpoint]; rfl⟩)
      (Or.inr (Or.inl Nat.one_pos))
  · cases hrefused

/-- A thread has woken whom it had to wake. -/
theorem ListLockInv.woken (hcard : Fintype.card T < 0x100000000) (h : ListLockInv tid s)
    (hpoint : (s.control t).point = .wake)
    (hother : total ListLockThread.sleeping s.control = 0 ∨
      ∃ u, u ≠ t ∧ 0 < (s.control u).attending) :
    ListLockInv tid ⟨s.memory, Function.update s.control t ((s.control t).go .outside)⟩ := by
  refine h.pass trivial ?_
  refine h.queue.step hcard ListLockThread.counted_le
    (Or.inl ⟨rfl, by rw [ListLockThread.counted, ListLockThread.counted, hpoint]; rfl⟩)
    (Or.inr (Or.inr ⟨rfl, ?_⟩))
  rcases hother with hnone | hattending
  · exact Or.inl hnone
  · exact Or.inr (Or.inl hattending)

omit [Fintype T] [DecidableEq T] in
theorem listLock_wakes {c c' : ListLockThread} {wake : Wake}
    (hwakes : (listLock tid).wakes c = some (wake, c')) :
    wake = .one ∧ c.point = .wake ∧ c' = c.go .outside := by
  unfold listLock at hwakes
  dsimp only at hwakes
  split at hwakes
  · rename_i hpoint
    cases hwakes
    exact ⟨rfl, hpoint, rfl⟩
  · cases hwakes

/-- Every step keeps the invariant. -/
theorem ListLockInv.step (hpos : ∀ t, 0 < tid t) (hinj : ∀ t u, tid t = tid u → t = u)
    (hcard : Fintype.card T < 0x100000000) {s' : ListLockState T} (h : ListLockInv tid s)
    (hstep : FutexThreads.Step (listLock tid) s t s') : ListLockInv tid s' := by
  cases hstep with
  | run hrun => exact h.run hpos hinj hcard hrun
  | call hcall =>
      obtain ⟨hpoint, hcalls⟩ := hcall
      have hcounted : (s.control t).counted = 0 := by rw [ListLockThread.counted, hpoint]
      have hidle : (s.control t).attending = 0 := by rw [ListLockThread.attending, hpoint]
      rcases hcalls with rfl | rfl | ⟨rfl, hlocks⟩
      · exact h.goes hcard trivial (Or.inl ⟨rfl, hcounted.symm⟩) (.aside rfl hidle)
      · exact h.goes hcard trivial (Or.inl ⟨rfl, hcounted.symm⟩) (.aside rfl hidle)
      · exact h.goes hcard hlocks (Or.inl ⟨rfl, hcounted.symm⟩) (.aside rfl hidle)
  | stir hasleep hc =>
      rw [show _ = (s.control t).roused from hc.elim id id]
      exact (h.rouse hcard hasleep).1
  | refuse hrefused => exact h.refuse hcard hrefused
  | @wakeOne sleeper c hwakes hne hasleep =>
      obtain ⟨-, hpoint, rfl⟩ := listLock_wakes hwakes
      obtain ⟨hroused, hattends⟩ := h.rouse hcard hasleep
      have hself : Function.update s.control sleeper (s.control sleeper).roused t = s.control t :=
        Function.update_of_ne hne.symm _ _
      have hwoken := hroused.woken (t := t) hcard (by dsimp only; rw [hself]; exact hpoint)
        (Or.inr ⟨sleeper, hne, by dsimp only; rw [Function.update_self]; omega⟩)
      dsimp only at hwoken
      rw [hself] at hwoken
      exact hwoken
  | wakeNone hwakes hnone =>
      obtain ⟨-, hpoint, rfl⟩ := listLock_wakes hwakes
      exact h.woken hcard hpoint (Or.inl (Finset.sum_eq_zero fun u _ =>
        ListLockThread.sleeping_of_awake (hnone u)))
  | wakeAll hwakes => cases (listLock_wakes hwakes).1

theorem listLockInit_reaches {labels : List T} (hpos : ∀ t, 0 < tid t)
    (hinj : ∀ t u, tid t = tid u → t = u) (hcard : Fintype.card T < 0x100000000)
    (hrun : Run (FutexThreads.Step (listLock tid)) listLockInit labels s) : ListLockInv tid s :=
  hrun.preserves (fun h hstep => h.step hpos hinj hcard hstep) (listLockInit_inv tid)

/-- One thread at most has the lock of the list.  The word says which one, and `tl_lock_count` how
often it has taken the lock; no thread waits for a lock that it has. -/
theorem listLock_exclusive {labels : List T} (hpos : ∀ t, 0 < tid t)
    (hinj : ∀ t u, tid t = tid u → t = u) (hcard : Fintype.card T < 0x100000000)
    (hrun : Run (FutexThreads.Step (listLock tid)) listLockInit labels s) :
    (∀ t u, 0 < (s.control t).locks → 0 < (s.control u).locks → t = u) ∧
    (∀ t, 0 < (s.control t).locks →
      s.memory.lock = tid t ∧ (s.control t).locks = s.memory.count + 1) ∧
    ((∀ t, (s.control t).locks = 0) → s.memory.lock = 0 ∧ s.memory.count = 0) ∧
    ∀ t val point, (s.control t).point = .wait val point → (s.control t).locks = 0 := by
  have h := listLockInit_reaches hpos hinj hcard hrun
  refine ⟨fun t u ht hu => ?_, fun t ht => ?_, fun hnone => ?_, fun t val point hpoint => ?_⟩
  · by_contra hne
    have hzero := (h.agrees.of_locks ht).2.2 u (Ne.symm hne)
    omega
  · obtain ⟨hlock, hlocks, -⟩ := h.agrees.of_locks ht
    exact ⟨hlock, hlocks⟩
  · cases h.agrees with
    | free hlock hcount => exact ⟨hlock, hcount⟩
    | held t hlock hlocks =>
        have hzero := hnone t
        omega
  · have hsensible := h.sensible t
    unfold ListLockThread.Sensible at hsensible
    rw [hpoint] at hsensible
    exact hsensible.2

omit [Fintype T] [DecidableEq T] in
/-- A thread that the host does not keep leaves `__wait` when the lock is free. -/
theorem ListLockThread.wait_alone {locks val waiters count : Nat} {point : CountedWait}
    (hval : val ≠ 0) (hfree : point.free = true) :
    (∃ n ≤ 4, ∃ waiters', (listLock tid).alone t n ⟨0, waiters, count⟩ ⟨locks, .wait val point⟩ =
      some (⟨0, waiters', count⟩, ⟨locks, .cas⟩)) ∧
    ∃ n ≤ 4, ∃ waiters', (listLock tid).alone t n ⟨0, waiters, count⟩
      ⟨locks, .syncWait val point⟩ = some (⟨0, waiters', count⟩, ⟨locks, .readWaiters⟩) := by
  have hother : decide (0 = val) = false := decide_eq_false (Ne.symm hval)
  constructor
  · apply @CountedWait.leaves_alone _ _ _ (listLock tid) t (fun waiters => ⟨0, waiters, count⟩)
      (fun point => ⟨locks, .wait val point⟩) _ _ _ hfree waiters
    intro waiters point
    simp only [listLock, ListLockThread.run, ListLockThread.go, hother]
  · apply @CountedWait.leaves_alone _ _ _ (listLock tid) t (fun waiters => ⟨0, waiters, count⟩)
      (fun point => ⟨locks, .syncWait val point⟩) _ _ _ hfree waiters
    intro waiters point
    simp only [listLock, ListLockThread.run, ListLockThread.go, hother]

omit [DecidableEq T] in
/-- Whoever sleeps is counted. -/
theorem ListLockInv.waiters_pos (h : ListLockInv tid s) (hasleep : (s.control t).asleep = true) :
    s.memory.waiters ≠ 0 := by
  have hcounted : (s.control t).counted = 1 := by
    unfold ListLockThread.counted
    obtain ⟨val, hpoint | hpoint⟩ := ListLockThread.asleep_cases hasleep <;> rw [hpoint] <;> rfl
  have hle := le_total ListLockThread.counted s.control t
  rw [h.queue.count, hcounted] at hle
  omega

/-- No wake is lost, also where `__tl_sync` gets it.  While the lock is free and a thread sleeps,
some thread takes the lock by itself, or comes to wake another one. -/
theorem listLock_progress {labels : List T} (hpos : ∀ t, 0 < tid t)
    (hinj : ∀ t u, tid t = tid u → t = u) (hcard : Fintype.card T < 0x100000000)
    (hrun : Run (FutexThreads.Step (listLock tid)) listLockInit labels s)
    (hasleep : (s.control t).asleep = true) (hfree : s.memory.lock = 0) :
    ∃ u, ∃ n ≤ 5, ∃ m c, (listLock tid).alone u n s.memory (s.control u) = some (m, c) ∧
      (c.point = .wake ∨ c.locks = (s.control u).locks + 1) := by
  have h := listLockInit_reaches hpos hinj hcard hrun
  have hsleeping : 0 < (s.control t).sleeping := by
    unfold ListLockThread.sleeping
    obtain ⟨val, hpoint | hpoint⟩ := ListLockThread.asleep_cases hasleep <;> rw [hpoint] <;>
      exact Nat.one_pos
  obtain ⟨u, hu⟩ := h.queue.attended.attending (not_not_intro hfree) hsleeping
  have hsensible := h.sensible u
  -- a thread that reads the count before its last access sees the one that sleeps
  have hreads : ∀ {m : ListLock} {c : ListLockThread}, m.waiters ≠ 0 → c.point = .readWaiters →
      (listLock tid).alone u 1 m c = some (m, c.go .wake) := by
    intro m c hwaiters hpoint
    obtain ⟨locks, point⟩ := c
    obtain rfl : point = .readWaiters := hpoint
    simp [FutexProgram.alone, listLock, ListLockThread.run, hwaiters]
  generalize hc : s.control u = c at hu hsensible
  obtain ⟨locks, point⟩ := c
  generalize hm : s.memory = m at hfree
  obtain ⟨lock, waiters, count⟩ := m
  obtain rfl : lock = 0 := hfree
  have hcas : ∀ waiters, (listLock tid).alone u 1 ⟨0, waiters, count⟩ ⟨locks, .cas⟩ =
      some (⟨tid u, waiters, count⟩, ⟨locks + 1, .outside⟩) := fun waiters => by
    simp [FutexProgram.alone, listLock, ListLockThread.run]
  cases point with
  | wake => exact ⟨u, 0, by decide, _, _, by rw [hc]; rfl, Or.inl rfl⟩
  | cas => exact ⟨u, 1, by decide, _, _, by rw [hc]; exact hcas waiters, Or.inr (by rw [hc])⟩
  | readWaiters =>
      have hwaiters := h.waiters_pos hasleep
      rw [hm] at hwaiters
      exact ⟨u, 1, by decide, _, ⟨locks, .wake⟩, by rw [hc]; exact hreads hwaiters rfl,
        Or.inl rfl⟩
  | wait val point =>
      have hfree : point.free = true := by
        by_contra hkept
        exact absurd (Nat.lt_of_lt_of_eq hu (if_neg hkept)) (Nat.lt_irrefl 0)
      obtain ⟨n, hn, waiters', halone⟩ :=
        (@ListLockThread.wait_alone _ tid u _ _ _ _ _ hsensible.1 hfree).1
      exact ⟨u, n + 1, by omega, _, _,
        by rw [hc]; exact (FutexProgram.alone_add halone).trans (hcas _), Or.inr (by rw [hc])⟩
  | syncWait val point =>
      have hfree : point.free = true := by
        by_contra hkept
        exact absurd (Nat.lt_of_lt_of_eq hu (if_neg hkept)) (Nat.lt_irrefl 0)
      obtain ⟨n, hn, waiters', halone⟩ :=
        (@ListLockThread.wait_alone _ tid u _ _ _ _ _ hsensible hfree).2
      have htu : t ≠ u := by
        rintro rfl
        obtain ⟨val', hpoint | hpoint⟩ := ListLockThread.asleep_cases hasleep
        · rw [hc] at hpoint
          cases hpoint
        · rw [hc] at hpoint
          cases hpoint
          cases hfree
      have hruns := alone_run (p := listLock tid) (s := s) (t := u) (by rw [hc, hm]; exact halone)
      have hlater := (listLockInit_reaches hpos hinj hcard (hrun.append hruns)).waiters_pos (t := t)
        (by dsimp only; rw [Function.update_of_ne htu]; exact hasleep)
      exact ⟨u, n + 1, by omega, _, ⟨locks, .wake⟩,
        by rw [hc]; exact (FutexProgram.alone_add halone).trans (hreads hlater rfl), Or.inl rfl⟩
  | _ => exact absurd hu (Nat.lt_irrefl 0)

end

namespace ListLockWitness

/-- The last thread takes the lock twice, another one waits for it and the first one for the last
to leave. -/
def schedule : List (Move ListLockThread Caller) :=
  [.call .third ⟨0, .read⟩, .alone .third 2, .call .third ⟨1, .read⟩, .alone .third 2,
    .call .first ⟨0, .sync⟩, .alone .first 205, .call .second ⟨0, .read⟩, .alone .second 7]

def taken : Option (ListLockState Caller) := replay (listLock Caller.tid) listLockInit schedule

/-- The last thread has left and has woken the first one. -/
def left : Option (ListLockState Caller) :=
  replay (listLock Caller.tid) listLockInit (schedule ++
    [.call .third ⟨2, .unlock⟩, .alone .third 1, .call .third ⟨1, .unlock⟩, .alone .third 3,
      .wake .third .first])

theorem held_exclusive : ∃ s, taken = some s ∧ s.memory.lock = Caller.third.tid ∧
    (s.control .third).locks = s.memory.count + 1 ∧ (s.control .third).locks = 2 := by
  obtain ⟨s, hs⟩ := Option.isSome_iff_exists.mp (show taken.isSome = true by decide +kernel)
  obtain ⟨labels, hrun⟩ := replay_run hs
  have hlocks : ∀ s ∈ taken, (s.control .third).locks = 2 := by decide +kernel
  have htwo := hlocks s hs
  obtain ⟨-, hword, -⟩ := listLock_exclusive Caller.tid_pos Caller.tid_inj (by decide) hrun
  obtain ⟨hlock, hcount⟩ := hword .third (by omega)
  exact ⟨s, hs, hlock, hcount, htwo⟩

theorem freed_progress : ∃ s, left = some s ∧ ∃ u, ∃ n ≤ 5, ∃ m c,
    (listLock Caller.tid).alone u n s.memory (s.control u) = some (m, c) ∧
      (c.point = .wake ∨ c.locks = (s.control u).locks + 1) := by
  obtain ⟨s, hs⟩ := Option.isSome_iff_exists.mp (show left.isSome = true by decide +kernel)
  obtain ⟨labels, hrun⟩ := replay_run hs
  have hasleep : ∀ s ∈ left, (s.control .second).asleep = true := by decide +kernel
  have hfree : ∀ s ∈ left, s.memory.lock = 0 := by decide +kernel
  exact ⟨s, hs, listLock_progress Caller.tid_pos Caller.tid_inj (by decide) hrun (hasleep s hs)
    (hfree s hs)⟩

end ListLockWitness

end Sync

end WasixLibc
