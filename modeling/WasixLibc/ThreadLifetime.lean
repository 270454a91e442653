/-
The block of an exiting thread.

The block at `map_base` holds the stack and the `struct pthread` of a thread.
Whether the thread itself or a `pthread_join` of it frees the block is decided
by the word `detach_state`; a join takes the block over only when the exiting
thread has released the lock of the list of threads.
-/
import WasixLibc.LabelledRun

namespace WasixLibc

namespace Threads

/-- `DT_EXITED`, `DT_EXITING`, `DT_JOINABLE` and `DT_DETACHED`. -/
inductive DetachState where
  | exited
  | exiting
  | joinable
  | detached
  deriving DecidableEq

/-- What does not change while a thread exits.  Its id is what it puts into the
word of the list lock, where 0 stands for a lock that is free. -/
structure ExitingThread where
  tid : Nat
  tid_ne : tid ≠ 0
  mapBase : Bool
  createdDetached : Bool

/-- Where the thread is in `__pthread_exit`. -/
inductive ExitPoint where
  | entered
  | raced
  | locked
  | unlinked
  | stored
  | joinerWoken
  | released
  | waking
  | notified
  | freed
  | ended
  | processExit
  deriving DecidableEq

/-- Where another thread is in its `pthread_join` or `pthread_detach`. -/
inductive PeerPoint where
  | idle
  | detaching
  | joining
  | waiting
  | syncing
  | blocked (val : Nat)
  | collecting
  | joined
  | detached
  | timedOut
  | crashed
  deriving DecidableEq

/-- `state` is what the exiting thread found in `detach_state`; `frees` counts
the calls of `free` with the block. -/
structure Lifetime where
  exit : ExitPoint
  peer : PeerPoint
  state : DetachState
  detachState : DetachState
  listLock : Nat
  frees : Nat

def Lifetime.init (e : ExitingThread) : Lifetime where
  exit := .entered
  peer := .idle
  state := .joinable
  detachState := if e.createdDetached then .detached else .joinable
  listLock := 0
  frees := 0

/-- `state==DT_DETACHED && self->map_base` -/
def Lifetime.FreesItself (e : ExitingThread) (s : Lifetime) : Prop :=
  s.state = .detached ∧ e.mapBase = true

instance (e : ExitingThread) (s : Lifetime) : Decidable (s.FreesItself e) :=
  inferInstanceAs (Decidable (_ ∧ _))

/-- A call under way, whose caller is in the list. -/
def PeerPoint.UnderWay : PeerPoint → Prop
  | .idle | .joined | .detached | .timedOut | .crashed => False
  | .detaching | .joining | .waiting | .syncing | .blocked _ | .collecting => True

inductive ExitAction where
  | prepare
  | compareAndSwap
  | awaitListLock
  | takeListLock
  | exitProcess
  | tearDown
  | storeExited
  | wakeJoiner
  | releaseListLock
  | readWaiters (waiters : Bool)
  | wakeWaiters
  | freeBlock
  | threadExit

/-- Whether an action reads or writes the `struct pthread` or the stack.  A wake
does, as the host stores its result in a local variable.  The list lock and the
count of its waiters are static. -/
def ExitAction.touchesBlock : ExitAction → Bool
  | .releaseListLock | .readWaiters _ | .threadExit => false
  | .prepare | .compareAndSwap | .awaitListLock | .takeListLock | .exitProcess | .tearDown
  | .storeExited | .wakeJoiner | .wakeWaiters | .freeBlock => true

/-- `__pthread_exit` -/
inductive ExitStep (e : ExitingThread) : Lifetime → ExitAction → Lifetime → Prop
  -- the result, the cleanup handlers and the destructors
  | prepare {s : Lifetime} (hexit : s.exit = .entered) : ExitStep e s .prepare s
  | compareAndSwap {s : Lifetime} (hexit : s.exit = .entered) :
      ExitStep e s .compareAndSwap { s with
        exit := .raced
        state := s.detachState
        detachState := if s.detachState = .joinable then .exiting else s.detachState }
  | awaitListLock {s : Lifetime} (hexit : s.exit = .raced) (hlock : s.listLock ≠ 0) :
      ExitStep e s .awaitListLock s
  | takeListLock {s : Lifetime} (hexit : s.exit = .raced) (hlock : s.listLock = 0) :
      ExitStep e s .takeListLock { s with exit := .locked, listLock := e.tid }
  -- `self->next == self`, so no other thread is in a call
  | exitProcess {s : Lifetime} (hexit : s.exit = .locked) (halone : ¬s.peer.UnderWay) :
      ExitStep e s .exitProcess
        { s with exit := .processExit, listLock := 0, detachState := s.state }
  | tearDown {s : Lifetime} (hexit : s.exit = .locked) :
      ExitStep e s .tearDown { s with exit := .unlinked }
  | storeExited {s : Lifetime} (hexit : s.exit = .unlinked) (hfrees : ¬s.FreesItself e) :
      ExitStep e s .storeExited { s with exit := .stored, detachState := .exited }
  | wakeJoiner {s : Lifetime} (hexit : s.exit = .stored) :
      ExitStep e s .wakeJoiner { s with exit := .joinerWoken }
  | releaseListLock {s : Lifetime}
      (hexit : (s.exit = .unlinked ∧ s.FreesItself e) ∨ s.exit = .joinerWoken) :
      ExitStep e s .releaseListLock { s with exit := .released, listLock := 0 }
  | readWaiters {s : Lifetime} (hexit : s.exit = .released) (waiters : Bool) :
      ExitStep e s (.readWaiters waiters)
        { s with exit := if waiters then .waking else .notified }
  | wakeWaiters {s : Lifetime} (hexit : s.exit = .waking) :
      ExitStep e s .wakeWaiters { s with exit := .notified }
  | freeBlock {s : Lifetime} (hexit : s.exit = .notified) (hfrees : s.FreesItself e) :
      ExitStep e s .freeBlock { s with exit := .freed, frees := s.frees + 1 }
  | threadExit {s : Lifetime}
      (hexit : (s.exit = .notified ∧ ¬s.FreesItself e) ∨ s.exit = .freed) :
      ExitStep e s .threadExit { s with exit := .ended }

inductive PeerAction where
  | callDetach
  | callJoin
  | compareAndSwap
  | readDetachState
  | endWait
  | timeOut
  | readListLock
  | listLockChanged
  | freeBlock

/-- `pthread_detach` and `pthread_timedjoin_np`, called at most once, and not
for a thread that was created detached. -/
inductive PeerStep (e : ExitingThread) : Lifetime → PeerAction → Lifetime → Prop
  | callDetach {s : Lifetime} (hpeer : s.peer = .idle) (hcreated : e.createdDetached = false) :
      PeerStep e s .callDetach { s with peer := .detaching }
  | callJoin {s : Lifetime} (hpeer : s.peer = .idle) (hcreated : e.createdDetached = false) :
      PeerStep e s .callJoin { s with peer := .joining }
  | compareAndSwap {s : Lifetime} (hpeer : s.peer = .detaching) :
      PeerStep e s .compareAndSwap
        (if s.detachState = .joinable then { s with peer := .detached, detachState := .detached }
        else { s with peer := .joining })
  -- the loop of `__pthread_timedjoin_np`
  | readDetachState {s : Lifetime} (hpeer : s.peer = .joining) :
      PeerStep e s .readDetachState { s with
        peer := match s.detachState with
          | .exited => .syncing
          | .detached => .crashed
          | .exiting | .joinable => .waiting }
  | endWait {s : Lifetime} (hpeer : s.peer = .waiting) :
      PeerStep e s .endWait { s with peer := .joining }
  | timeOut {s : Lifetime} (hpeer : s.peer = .waiting) :
      PeerStep e s .timeOut { s with peer := .timedOut }
  -- `__tl_sync`
  | readListLock {s : Lifetime} (hpeer : s.peer = .syncing) :
      PeerStep e s .readListLock
        { s with peer := if s.listLock = 0 then .collecting else .blocked s.listLock }
  | listLockChanged {s : Lifetime} {val : Nat} (hpeer : s.peer = .blocked val)
      (hlock : s.listLock ≠ val) : PeerStep e s .listLockChanged { s with peer := .collecting }
  | freeBlock {s : Lifetime} (hpeer : s.peer = .collecting) :
      PeerStep e s .freeBlock
        { s with peer := .joined, frees := if e.mapBase then s.frees + 1 else s.frees }

inductive LifetimeEvent where
  | exit (action : ExitAction)
  | peer (action : PeerAction)
  | otherLocks (tid : Nat)
  | otherUnlocks

/-- The two calls, and other threads that take the list lock. -/
inductive LifetimeStep (e : ExitingThread) : Lifetime → LifetimeEvent → Lifetime → Prop
  | exit {s s' : Lifetime} {action : ExitAction} (hstep : ExitStep e s action s') :
      LifetimeStep e s (.exit action) s'
  | peer {s s' : Lifetime} {action : PeerAction} (hstep : PeerStep e s action s') :
      LifetimeStep e s (.peer action) s'
  | otherLocks {s : Lifetime} {tid : Nat} (hlock : s.listLock = 0) (htid : tid ≠ 0)
      (hother : tid ≠ e.tid) : LifetimeStep e s (.otherLocks tid) { s with listLock := tid }
  | otherUnlocks {s : Lifetime} (hlock : s.listLock ≠ e.tid) :
      LifetimeStep e s .otherUnlocks { s with listLock := 0 }

/-! Who owns the block -/

/-- Between taking the list lock and releasing it. -/
def ExitPoint.HoldsLock : ExitPoint → Prop
  | .locked | .unlinked | .stored | .joinerWoken => True
  | .entered | .raced | .released | .waking | .notified | .freed | .ended | .processExit => False

/-- Past the release of the list lock. -/
def ExitPoint.HandedOver : ExitPoint → Prop
  | .released | .waking | .notified | .freed | .ended => True
  | .entered | .raced | .locked | .unlinked | .stored | .joinerWoken | .processExit => False

/-- Past a read of `DT_EXITED`. -/
def PeerPoint.SawExit : PeerPoint → Prop
  | .syncing | .blocked _ | .collecting | .joined => True
  | .idle | .detaching | .joining | .waiting | .detached | .timedOut | .crashed => False

/-- What `detach_state` holds at each point of the exit. -/
def Lifetime.WordHolds (e : ExitingThread) (s : Lifetime) : Prop :=
  match s.exit with
  | .entered | .processExit => s.detachState = .joinable ∨ s.detachState = .detached
  | .raced | .locked | .unlinked =>
      s.detachState = if s.state = .detached then .detached else .exiting
  | .stored | .joinerWoken => s.detachState = .exited ∧ ¬s.FreesItself e
  | .released | .waking | .notified | .ended =>
      s.detachState = if s.FreesItself e then .detached else .exited
  | .freed => s.detachState = .detached ∧ s.FreesItself e

/-- The exiting thread has freed its block. -/
def Lifetime.FreedItself (e : ExitingThread) (s : Lifetime) : Prop :=
  s.exit = .freed ∨ (s.exit = .ended ∧ s.FreesItself e)

instance (e : ExitingThread) (s : Lifetime) : Decidable (s.FreedItself e) :=
  inferInstanceAs (Decidable (_ ∨ _))

/-- The exiting thread finds, or has found, itself detached. -/
def Lifetime.Marked (s : Lifetime) : Prop :=
  match s.exit with
  | .entered => s.detachState = .detached
  | .processExit => True
  | .raced | .locked | .unlinked | .stored | .joinerWoken | .released | .waking | .notified
  | .freed | .ended => s.state = .detached

/-- A join collects the block only from a thread that has released the list
lock, and never one that frees itself. -/
structure Lifetime.Owned (e : ExitingThread) (s : Lifetime) : Prop where
  word : s.WordHolds e
  state : s.state = .joinable ∨ s.state = .detached
  detached : s.state = .detached ∨ s.detachState = .detached →
    e.createdDetached = true ∨ s.peer = .detached
  marked : e.createdDetached = true ∨ s.peer = .detached → s.Marked
  created : e.createdDetached = true → s.peer = .idle
  crashed : s.peer ≠ .crashed
  lock : s.exit.HoldsLock → s.listLock = e.tid
  sync : s.peer.SawExit → s.detachState = .exited
  blocked : ∀ val, s.peer = .blocked val → s.exit.HoldsLock → val = e.tid
  collect : s.peer = .collecting ∨ s.peer = .joined → s.exit.HandedOver
  frees : s.frees = (if s.peer = .joined ∧ e.mapBase = true then 1 else 0) +
    if s.FreedItself e then 1 else 0

section Ownership

variable {e : ExitingThread} {s s' : Lifetime}

theorem init_owned (e : ExitingThread) : (Lifetime.init e).Owned e where
  word := by
    cases hcreated : e.createdDetached <;> simp [Lifetime.init, Lifetime.WordHolds, hcreated]
  state := Or.inl rfl
  detached := by
    cases hcreated : e.createdDetached <;> simp [Lifetime.init, hcreated]
  marked := by
    rintro (hcreated | hpeer)
    · simp [Lifetime.init, Lifetime.Marked, hcreated]
    · cases hpeer
  created := fun _ => rfl
  crashed := by simp [Lifetime.init]
  lock := fun hlock => hlock.elim
  sync := fun hsync => hsync.elim
  blocked := by simp [Lifetime.init]
  collect := by simp [Lifetime.init]
  frees := by simp [Lifetime.init, Lifetime.FreedItself]

/-- Before `DT_EXITED` is stored, a call has not read it. -/
theorem Lifetime.Owned.not_sawExit (h : s.Owned e)
    (hexit : s.exit ∈ [.entered, .raced, .locked, .unlinked]) : ¬s.peer.SawExit := by
  intro hsaw
  have hexited := h.sync hsaw
  have hword := h.word
  simp only [List.mem_cons, List.not_mem_nil, or_false] at hexit
  rcases hexit with hexit | hexit | hexit | hexit <;>
    simp only [Lifetime.WordHolds, hexit, hexited] at hword <;> grind

/-- A thread that has stored `DT_EXITED` and does not hold the list lock. -/
theorem Lifetime.Owned.handedOver (h : s.Owned e) (hexited : s.detachState = .exited)
    (hlock : ¬s.exit.HoldsLock) : s.exit.HandedOver := by
  have hword := h.word
  cases hexit : s.exit <;> rw [hexit] at hlock <;>
    simp only [Lifetime.WordHolds, hexit, hexited] at hword <;>
    first | trivial | exact absurd trivial hlock | grind

theorem Lifetime.Owned.not_freedItself (h : s.Owned e) (hexited : s.detachState = .exited) :
    ¬s.FreedItself e := by
  have hword := h.word
  rintro (hexit | ⟨hexit, hfrees⟩)
  · simp only [Lifetime.WordHolds, hexit, hexited] at hword
    cases hword.1
  · simp only [Lifetime.WordHolds, hexit, hexited, if_pos hfrees] at hword
    cases hword

/-- `DT_JOINABLE` stands in the word before the exit, and again when the
process exits instead. -/
theorem Lifetime.Owned.exit_of_joinable (h : s.Owned e) (hjoinable : s.detachState = .joinable) :
    s.exit = .entered ∨ s.exit = .processExit := by
  have hword := h.word
  cases hexit : s.exit <;> simp only [Lifetime.WordHolds, hexit, hjoinable] at hword <;> grind

/-- A thread that somebody else looks after is not detached. -/
theorem Lifetime.Owned.not_detached (h : s.Owned e) (hcreated : e.createdDetached = false)
    (hpeer : s.peer ≠ .detached) : ¬(s.state = .detached ∨ s.detachState = .detached) := by
  intro hdetached
  rcases h.detached hdetached with hcreated' | hpeer'
  · rw [hcreated] at hcreated'
    cases hcreated'
  · exact hpeer hpeer'

theorem Lifetime.Owned.not_created (h : s.Owned e) (hpeer : s.peer ≠ .idle) :
    e.createdDetached = false := by
  cases hcreated : e.createdDetached with
  | false => rfl
  | true => exact absurd (h.created hcreated) hpeer

/-- Where the list lock was released, it is not held. -/
theorem ExitPoint.HandedOver.not_holdsLock {point : ExitPoint} (h : point.HandedOver) :
    ¬point.HoldsLock := by
  cases point <;> first | exact h.elim | exact id

/-- A thread that holds the list lock at its next point, too. -/
theorem Lifetime.Owned.moveLocked (h : s.Owned e) {point : ExitPoint}
    (hpoint : point.HoldsLock) (hexit : ¬s.exit.HandedOver)
    (hword : Lifetime.WordHolds e { s with exit := point, listLock := e.tid })
    (hmarked : s.Marked → s.state = .detached)
    (hblocked : s.exit.HoldsLock ∨ ¬s.peer.SawExit) :
    Lifetime.Owned e { s with exit := point, listLock := e.tid } :=
  { h with
    word := hword
    marked := fun hboth => by
      have hstate := hmarked (h.marked hboth)
      cases point <;> first | exact hpoint.elim | exact hstate
    lock := fun _ => rfl
    blocked := fun val hval _ => hblocked.elim (h.blocked val hval)
      fun hsaw => absurd (by rw [hval]; trivial) hsaw
    collect := fun hpeer => absurd (h.collect hpeer) hexit
    frees := by
      have hnew : ¬Lifetime.FreedItself e { s with exit := point, listLock := e.tid } := by
        rintro (hfreed | ⟨hfreed, -⟩) <;> cases hfreed <;> exact hpoint
      have hold : ¬s.FreedItself e := by
        rintro (hfreed | ⟨hfreed, -⟩) <;> rw [hfreed] at hexit <;> exact hexit trivial
      rw [if_neg hnew]
      have hfrees := h.frees
      rwa [if_neg hold] at hfrees }

/-- A thread that goes on after the release of the list lock: from here on a
join may collect the block. -/
theorem Lifetime.Owned.moveOver (h : s.Owned e) {point : ExitPoint} {listLock : Nat}
    (hpoint : point.HandedOver)
    (hword : Lifetime.WordHolds e { s with exit := point, listLock := listLock })
    (hmarked : s.Marked → s.state = .detached)
    (hfreed : Lifetime.FreedItself e { s with exit := point, listLock := listLock } ↔
      s.FreedItself e) :
    Lifetime.Owned e { s with exit := point, listLock := listLock } := by
  have hlock := hpoint.not_holdsLock
  exact { h with
    word := hword
    marked := fun hboth => by
      have hstate := hmarked (h.marked hboth)
      cases point <;> first | exact hpoint.elim | exact hstate
    lock := fun hlock' => absurd hlock' hlock
    blocked := fun _ _ hlock' => absurd hlock' hlock
    collect := fun _ => hpoint
    frees := by
      simp only [hfreed]
      exact h.frees }

theorem exitStep_owned {action : ExitAction} (h : s.Owned e) (hstep : ExitStep e s action s') :
    s'.Owned e := by
  have hword := h.word
  cases hstep with
  | prepare hexit => exact h
  | compareAndSwap hexit =>
      simp only [Lifetime.WordHolds, hexit] at hword
      have hsaw := h.not_sawExit (by simp [hexit])
      exact { h with
        word := by rcases hword with hword | hword <;> simp [Lifetime.WordHolds, hword]
        state := hword
        detached := by
          rcases hword with hword | hword
          · simp [hword]
          · exact fun _ => h.detached (Or.inr hword)
        marked := fun hmarked => by simpa only [Lifetime.Marked, hexit] using h.marked hmarked
        lock := fun hlock => hlock.elim
        sync := fun hsaw' => absurd hsaw' hsaw
        blocked := fun _ _ hlock => hlock.elim
        collect := fun hpeer => absurd (h.collect hpeer) (by rw [hexit]; exact id)
        frees := by simpa [Lifetime.FreedItself, hexit] using h.frees }
  | awaitListLock hexit hlock => exact h
  | takeListLock hexit hlock =>
      simp only [Lifetime.WordHolds, hexit] at hword
      exact h.moveLocked trivial (by rw [hexit]; exact id) hword
        (fun hmarked => by simpa only [Lifetime.Marked, hexit] using hmarked)
        (Or.inr (h.not_sawExit (by simp [hexit])))
  | exitProcess hexit halone =>
      have hsaw := h.not_sawExit (by simp [hexit])
      exact { h with
        word := h.state
        detached := fun hdetached => h.detached (Or.inl (by simpa using hdetached))
        marked := fun _ => trivial
        lock := fun hlock => hlock.elim
        sync := fun hsaw' => absurd hsaw' hsaw
        blocked := fun _ _ hlock => hlock.elim
        collect := fun hpeer => absurd (h.collect hpeer) (by rw [hexit]; exact id)
        frees := by simpa [Lifetime.FreedItself, hexit] using h.frees }
  | tearDown hexit =>
      simp only [Lifetime.WordHolds, hexit] at hword
      have hlocked : s.exit.HoldsLock := by rw [hexit]; trivial
      have hmoved : Lifetime.Owned e { s with exit := .unlinked, listLock := e.tid } :=
        h.moveLocked trivial (by rw [hexit]; exact id) hword
          (fun hmarked => by simpa only [Lifetime.Marked, hexit] using hmarked) (Or.inl hlocked)
      rwa [← h.lock hlocked] at hmoved
  | storeExited hexit hfrees =>
      have hsaw := h.not_sawExit (by simp [hexit])
      exact { h with
        word := ⟨rfl, hfrees⟩
        detached := by
          rintro (hstate | hexited)
          · exact h.detached (Or.inl hstate)
          · cases hexited
        marked := fun hmarked => by simpa only [Lifetime.Marked, hexit] using h.marked hmarked
        lock := fun _ => h.lock (by rw [hexit]; trivial)
        sync := fun _ => rfl
        blocked := fun val hval _ => absurd (by rw [hval]; trivial) hsaw
        collect := fun hpeer => absurd (h.collect hpeer) (by rw [hexit]; exact id)
        frees := by simpa [Lifetime.FreedItself, hexit] using h.frees }
  | wakeJoiner hexit =>
      simp only [Lifetime.WordHolds, hexit] at hword
      have hlocked : s.exit.HoldsLock := by rw [hexit]; trivial
      have hmoved : Lifetime.Owned e { s with exit := .joinerWoken, listLock := e.tid } :=
        h.moveLocked trivial (by rw [hexit]; exact id) hword
          (fun hmarked => by simpa only [Lifetime.Marked, hexit] using hmarked) (Or.inl hlocked)
      rwa [← h.lock hlocked] at hmoved
  | releaseListLock hexit =>
      refine h.moveOver trivial ?_ ?_ ?_
      · rcases hexit with ⟨hexit, hfrees⟩ | hexit
        · simpa [Lifetime.WordHolds, hexit, hfrees.1, Lifetime.FreesItself, hfrees.2] using hword
        · simp only [Lifetime.WordHolds, hexit] at hword
          exact hword.1.trans (if_neg hword.2).symm
      · rcases hexit with ⟨hexit, -⟩ | hexit <;> simp [Lifetime.Marked, hexit]
      · rcases hexit with ⟨hexit, -⟩ | hexit <;> simp [Lifetime.FreedItself, hexit]
  | readWaiters hexit waiters =>
      simp only [Lifetime.WordHolds, hexit] at hword
      cases waiters <;> exact h.moveOver trivial hword (by simp [Lifetime.Marked, hexit])
        (by simp [Lifetime.FreedItself, hexit])
  | wakeWaiters hexit =>
      simp only [Lifetime.WordHolds, hexit] at hword
      exact h.moveOver trivial hword (by simp [Lifetime.Marked, hexit])
        (by simp [Lifetime.FreedItself, hexit])
  | freeBlock hexit hfrees =>
      simp only [Lifetime.WordHolds, hexit, if_pos hfrees] at hword
      exact { h with
        word := ⟨hword, hfrees⟩
        marked := fun hmarked => by simpa only [Lifetime.Marked, hexit] using h.marked hmarked
        lock := fun hlock => hlock.elim
        blocked := fun _ _ hlock => hlock.elim
        collect := fun _ => trivial
        frees := by simpa [Lifetime.FreedItself, hexit] using h.frees }
  | threadExit hexit =>
      refine h.moveOver trivial ?_ ?_ ?_
      · rcases hexit with ⟨hexit, -⟩ | hexit
        · simp only [Lifetime.WordHolds, hexit] at hword
          exact hword
        · simp only [Lifetime.WordHolds, hexit] at hword
          exact hword.1.trans (if_pos hword.2).symm
      · rcases hexit with ⟨hexit, -⟩ | hexit <;> simp [Lifetime.Marked, hexit]
      · rcases hexit with ⟨hexit, hkeeps⟩ | hexit
        · simp only [Lifetime.FreedItself, hexit]
          exact ⟨fun hfreed => absurd (hfreed.resolve_left nofun).2 hkeeps, nofun⟩
        · simp only [Lifetime.WordHolds, hexit] at hword
          exact ⟨fun _ => Or.inl hexit, fun _ => Or.inr ⟨rfl, hword.2⟩⟩

/-- A call that goes from one point to another and touches nothing else. -/
theorem Lifetime.Owned.movePeer (h : s.Owned e) {peer : PeerPoint}
    (hcreated : e.createdDetached = false) (hpeer : s.peer = .idle ∨ s.peer.UnderWay)
    (hpeer' : peer = .timedOut ∨ peer.UnderWay)
    (hsync : peer.SawExit → s.detachState = .exited)
    (hblocked : ∀ val, peer = .blocked val → s.exit.HoldsLock → val = e.tid)
    (hcollect : peer = .collecting → s.exit.HandedOver) :
    Lifetime.Owned e { s with peer := peer } := by
  have hended : s.peer ≠ .detached ∧ s.peer ≠ .joined := by
    constructor <;> intro hended <;> rw [hended] at hpeer <;> exact hpeer.elim nofun id
  have hended' : peer ≠ .detached ∧ peer ≠ .joined ∧ peer ≠ .crashed := by
    refine ⟨?_, ?_, ?_⟩ <;> rintro rfl <;> exact hpeer'.elim nofun id
  exact { h with
    detached := fun hdetached => absurd hdetached (h.not_detached hcreated hended.1)
    marked := fun hmarked => absurd hmarked (by simp [hcreated, hended'.1])
    created := fun hcreated' => by rw [hcreated] at hcreated'; cases hcreated'
    crashed := hended'.2.2
    sync := hsync
    blocked := hblocked
    collect := fun hcollects => hcollects.elim hcollect (fun hjoined => absurd hjoined hended'.2.1)
    frees := by
      have hfrees := h.frees
      rw [if_neg (fun hjoined => hended.2 hjoined.1)] at hfrees
      rw [if_neg (fun hjoined => hended'.2.1 hjoined.1)]
      exact hfrees }

theorem peerStep_owned {action : PeerAction} (h : s.Owned e) (hstep : PeerStep e s action s') :
    s'.Owned e := by
  cases hstep with
  | callDetach hpeer hcreated =>
      exact h.movePeer hcreated (Or.inl hpeer) (Or.inr trivial)
        (fun hsaw => hsaw.elim) (by simp) (by simp)
  | callJoin hpeer hcreated =>
      exact h.movePeer hcreated (Or.inl hpeer) (Or.inr trivial)
        (fun hsaw => hsaw.elim) (by simp) (by simp)
  | compareAndSwap hpeer =>
      have hcreated := h.not_created (by rw [hpeer]; nofun)
      split
      · rename_i hjoinable
        exact { h with
          word := by
            rcases h.exit_of_joinable hjoinable with hexit | hexit <;>
              simp [Lifetime.WordHolds, hexit]
          detached := fun _ => Or.inr rfl
          marked := fun _ => by
            rcases h.exit_of_joinable hjoinable with hexit | hexit <;>
              simp [Lifetime.Marked, hexit]
          created := fun hcreated' => by rw [hcreated] at hcreated'; cases hcreated'
          crashed := by simp
          sync := fun hsaw => hsaw.elim
          blocked := by simp
          collect := by simp
          frees := by
            have hfrees := h.frees
            rw [if_neg (fun hjoined => by rw [hpeer] at hjoined; cases hjoined.1)] at hfrees
            rw [if_neg (fun hjoined => by cases hjoined.1)]
            exact hfrees }
      · exact h.movePeer hcreated (Or.inr (by rw [hpeer]; trivial)) (Or.inr trivial)
          (fun hsaw => hsaw.elim) (by simp) (by simp)
  | readDetachState hpeer =>
      have hcreated := h.not_created (by rw [hpeer]; nofun)
      have hdetached := h.not_detached hcreated (by rw [hpeer]; nofun)
      refine h.movePeer hcreated (Or.inr (by rw [hpeer]; trivial)) ?_ ?_ ?_ ?_ <;>
        cases hstate : s.detachState
      all_goals first
        | exact absurd (Or.inr hstate) hdetached
        | simp [PeerPoint.SawExit, PeerPoint.UnderWay]
  | endWait hpeer =>
      have hcreated := h.not_created (by rw [hpeer]; nofun)
      exact h.movePeer hcreated (Or.inr (by rw [hpeer]; trivial)) (Or.inr trivial)
        (fun hsaw => hsaw.elim) (by simp) (by simp)
  | timeOut hpeer =>
      have hcreated := h.not_created (by rw [hpeer]; nofun)
      exact h.movePeer hcreated (Or.inr (by rw [hpeer]; trivial)) (Or.inl rfl)
        (fun hsaw => hsaw.elim) (by simp) (by simp)
  | readListLock hpeer =>
      have hcreated := h.not_created (by rw [hpeer]; nofun)
      have hexited := h.sync (by rw [hpeer]; trivial)
      split
      · rename_i hfree
        refine h.movePeer hcreated (Or.inr (by rw [hpeer]; trivial)) (Or.inr trivial)
          (fun _ => hexited) (by simp) (fun _ => h.handedOver hexited fun hlock => ?_)
        exact e.tid_ne ((h.lock hlock).symm.trans hfree)
      · refine h.movePeer hcreated (Or.inr (by rw [hpeer]; trivial)) (Or.inr trivial)
          (fun _ => hexited) (fun val hval hlock => ?_) (by simp)
        cases hval
        exact h.lock hlock
  | @listLockChanged val hpeer hchanged =>
      have hcreated := h.not_created (by rw [hpeer]; nofun)
      have hexited := h.sync (by rw [hpeer]; trivial)
      refine h.movePeer hcreated (Or.inr (by rw [hpeer]; trivial)) (Or.inr trivial)
        (fun _ => hexited) (by simp) (fun _ => h.handedOver hexited fun hlock => ?_)
      -- the word it has read was the id of the exiting thread
      exact hchanged ((h.lock hlock).trans (h.blocked val hpeer hlock).symm)
  | freeBlock hpeer =>
      have hcreated := h.not_created (by rw [hpeer]; nofun)
      have hexited := h.sync (by rw [hpeer]; trivial)
      have hfreed := h.not_freedItself hexited
      have hkept : s.frees = 0 := by
        rw [h.frees, if_neg hfreed, hpeer]
        rfl
      exact { h with
        detached := fun hdetached =>
          absurd hdetached (h.not_detached hcreated (by rw [hpeer]; nofun))
        marked := fun hmarked => absurd hmarked (by simp [hcreated])
        created := fun hcreated' => by rw [hcreated] at hcreated'; cases hcreated'
        crashed := by simp
        sync := fun _ => hexited
        blocked := by simp
        collect := fun _ => h.collect (Or.inl hpeer)
        frees := by
          have hnone : ¬Lifetime.FreedItself e { s with
            peer := .joined, frees := if e.mapBase then s.frees + 1 else s.frees } := hfreed
          rw [if_neg hnone]
          simp [hkept] }

theorem lifetimeStep_owned {event : LifetimeEvent} (h : s.Owned e)
    (hstep : LifetimeStep e s event s') : s'.Owned e := by
  cases hstep with
  | exit hexit => exact exitStep_owned h hexit
  | peer hpeer => exact peerStep_owned h hpeer
  | otherLocks hfree htid hother =>
      exact { h with
        lock := fun hlock => absurd ((h.lock hlock).symm.trans hfree) e.tid_ne }
  | otherUnlocks hother =>
      exact { h with lock := fun hlock => absurd (h.lock hlock) hother }

/-- A thread whose block is freed has but its last steps to do. -/
theorem Lifetime.Owned.last_steps {action : ExitAction} (h : s.Owned e) (hfrees : s.frees ≠ 0)
    (hstep : ExitStep e s action s') (htouches : action.touchesBlock = true) :
    action = .wakeWaiters := by
  have hlast : s.exit.HandedOver ∧ (s.exit = .notified → ¬s.FreesItself e) := by
    have hcount := h.frees
    have hword := h.word
    by_cases hfreed : s.FreedItself e
    · rcases hfreed with hexit | ⟨hexit, -⟩ <;> rw [hexit] <;> exact ⟨trivial, nofun⟩
    · rw [if_neg hfreed] at hcount
      have hjoined : s.peer = .joined := by
        by_contra hother
        rw [if_neg (fun hboth => hother hboth.1)] at hcount
        exact hfrees hcount
      refine ⟨h.collect (Or.inr hjoined), fun hexit hgives => ?_⟩
      have hexited := h.sync (by rw [hjoined]; trivial)
      simp only [Lifetime.WordHolds, hexit, hexited, if_pos hgives] at hword
      cases hword
  obtain ⟨hover, hkeeps⟩ := hlast
  cases hstep with
  | wakeWaiters hexit => rfl
  | freeBlock hexit hgives => exact absurd hgives (hkeeps hexit)
  | releaseListLock hexit => cases htouches
  | readWaiters hexit waiters => cases htouches
  | threadExit hexit => cases htouches
  | prepare hexit => rw [hexit] at hover; exact hover.elim
  | compareAndSwap hexit => rw [hexit] at hover; exact hover.elim
  | awaitListLock hexit hlock => rw [hexit] at hover; exact hover.elim
  | takeListLock hexit hlock => rw [hexit] at hover; exact hover.elim
  | exitProcess hexit halone => rw [hexit] at hover; exact hover.elim
  | tearDown hexit => rw [hexit] at hover; exact hover.elim
  | storeExited hexit hkeeps' => rw [hexit] at hover; exact hover.elim
  | wakeJoiner hexit => rw [hexit] at hover; exact hover.elim

theorem Lifetime.Owned.frees_le_one (h : s.Owned e) : s.frees ≤ 1 := by
  rw [h.frees]
  by_cases hjoined : s.peer = .joined
  · have hexited := h.sync (by rw [hjoined]; trivial)
    rw [if_neg (h.not_freedItself hexited)]
    split <;> omega
  · rw [if_neg (fun hboth => hjoined hboth.1)]
    split <;> omega

/-- How often the block of a thread that has ended is freed. -/
theorem Lifetime.Owned.frees_of_ended (h : s.Owned e) (hexit : s.exit = .ended)
    (hmap : e.mapBase = true) :
    s.frees =
      if e.createdDetached = true ∨ s.peer = .detached ∨ s.peer = .joined then 1 else 0 := by
  have hitself : s.FreedItself e ↔ e.createdDetached = true ∨ s.peer = .detached := by
    constructor
    · rintro (hfreed | ⟨-, hgives⟩)
      · rw [hexit] at hfreed
        cases hfreed
      · exact h.detached (Or.inl hgives.1)
    · intro hmarked
      have hstate := h.marked hmarked
      simp only [Lifetime.Marked, hexit] at hstate
      exact Or.inr ⟨hexit, hstate, hmap⟩
  rw [h.frees]
  by_cases hjoined : s.peer = .joined
  · have hkept := h.not_freedItself (h.sync (by rw [hjoined]; trivial))
    rw [if_pos ⟨hjoined, hmap⟩, if_neg hkept, if_pos (Or.inr (Or.inr hjoined))]
  · simp only [hjoined, hitself, false_and, or_false, if_false, Nat.zero_add]

/-- In every run the block is freed at most once; when the thread has ended,
exactly once if the thread was created detached or a `pthread_detach` or
`pthread_join` of it has succeeded.  From then on the thread does not touch the
block, except that it may wake a thread that waits for the list lock. -/
theorem run_frees {events : List LifetimeEvent}
    (hrun : Run (LifetimeStep e) (Lifetime.init e) events s) :
    s.frees ≤ 1 ∧
    (s.exit = .ended → e.mapBase = true → s.frees =
      if e.createdDetached = true ∨ s.peer = .detached ∨ s.peer = .joined then 1 else 0) ∧
    ∀ action s', ExitStep e s action s' → s.frees ≠ 0 → action.touchesBlock = true →
      action = .wakeWaiters := by
  have howned : s.Owned e := hrun.preserves (fun h hstep => lifetimeStep_owned h hstep)
    (init_owned e)
  exact ⟨howned.frees_le_one, howned.frees_of_ended,
    fun action s' hstep hfrees htouches => howned.last_steps hfrees hstep htouches⟩

end Ownership

namespace LifetimeWitness

/-- A thread that can be joined. -/
def thread : ExitingThread where
  tid := 7
  tid_ne := by decide
  mapBase := true
  createdDetached := false

/-- The thread has ended, and nobody has joined it. -/
def unjoined : Lifetime where
  exit := .ended
  peer := .idle
  state := .joinable
  detachState := .exited
  listLock := 0
  frees := 0

/-- A join has freed the block, and the thread has yet to wake a waiter. -/
def joined : Lifetime where
  exit := .waking
  peer := .joined
  state := .joinable
  detachState := .exited
  listLock := 0
  frees := 1

theorem unjoined_run :
    ∃ events, Run (LifetimeStep thread) (Lifetime.init thread) events unjoined :=
  ⟨_, .snoc (.snoc (.snoc (.snoc (.snoc (.snoc (.snoc (.snoc .nil
    (.exit (.compareAndSwap rfl)))
    (.exit (.takeListLock rfl rfl)))
    (.exit (.tearDown rfl)))
    (.exit (.storeExited rfl (by decide))))
    (.exit (.wakeJoiner rfl)))
    (.exit (.releaseListLock (Or.inr rfl))))
    (.exit (.readWaiters rfl false)))
    (.exit (.threadExit (Or.inl ⟨rfl, by decide⟩)))⟩

theorem joined_run :
    ∃ events, Run (LifetimeStep thread) (Lifetime.init thread) events joined :=
  ⟨_, .snoc (.snoc (.snoc (.snoc (.snoc (.snoc (.snoc (.snoc (.snoc (.snoc (.snoc (.snoc .nil
    (.exit (.compareAndSwap rfl)))
    (.exit (.takeListLock rfl rfl)))
    (.exit (.tearDown rfl)))
    (.exit (.storeExited rfl (by decide))))
    (.peer (.callJoin rfl rfl)))
    (.peer (.readDetachState rfl)))
    (.peer (.readListLock rfl)))
    (.exit (.wakeJoiner rfl)))
    (.exit (.releaseListLock (Or.inr rfl))))
    (.exit (.readWaiters rfl true)))
    (.peer (.listLockChanged rfl (by decide))))
    (.peer (.freeBlock rfl))⟩

theorem joined_frees :
    joined.frees ≤ 1 ∧
    (joined.exit = .ended → thread.mapBase = true → joined.frees =
      if thread.createdDetached = true ∨ joined.peer = .detached ∨ joined.peer = .joined
      then 1 else 0) ∧
    ∀ action s', ExitStep thread joined action s' → joined.frees ≠ 0 →
      action.touchesBlock = true → action = .wakeWaiters := by
  obtain ⟨events, hrun⟩ := joined_run
  exact run_frees hrun

/-- Without a join the block stays, and a block that was freed may still be
written to. -/
theorem unjoined_not_freed :
    (∃ events s, Run (LifetimeStep thread) (Lifetime.init thread) events s ∧
      s.exit = .ended ∧ s.peer = .idle ∧ s.frees = 0) ∧
    ∃ events s action s', Run (LifetimeStep thread) (Lifetime.init thread) events s ∧
      s.frees ≠ 0 ∧ ExitStep thread s action s' ∧ action.touchesBlock = true := by
  obtain ⟨events, hrun⟩ := unjoined_run
  obtain ⟨events', hrun'⟩ := joined_run
  exact ⟨⟨events, unjoined, hrun, rfl, rfl, rfl⟩,
    ⟨events', joined, .wakeWaiters, _, hrun', by decide, .wakeWaiters rfl, rfl⟩⟩

end LifetimeWitness

end Threads

end WasixLibc
