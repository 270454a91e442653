/-
The barrier for the threads of one process.

The first thread of a round puts the instance of the round into its own stack frame,
where the others of the round count themselves in and, later, out.  The frame has to
stay until the last of them is done with it.  A frame that is used again has the
address it had before.
-/
import WasixLibc.FutexWait

namespace WasixLibc

namespace Sync

open FutexThreads

/-- `struct instance` -/
structure Instance where
  count : Nat
  last : Nat
  waiters : Nat
  finished : Nat
deriving Repr, DecidableEq

/-- A `pthread_barrier_t`, and `new_inst` in the frame of each thread. -/
structure BarrierMemory (T : Type) where
  lock : Nat
  waiters : Nat
  inst : Option T
  frames : T → Instance

/-- Which of the threads of a round gives the lock of the barrier back. -/
inductive BarrierRole (T : Type) where
  | owner
  | last (o : T)
  | middle (o : T)
deriving Repr, DecidableEq

/-- Where a thread is in `pthread_barrier_wait`; `o` is the thread with the instance. -/
inductive BarrierPoint (T : Type) where
  | outside
  | swapLock
  | waitLock (point : CountedWait)
  | readInst
  | setInst
  | loadCount (o : T)
  | storeCount (o : T) (count : Nat)
  | clearInst (o : T)
  | unlock (role : BarrierRole T)
  | readWaiters (role : BarrierRole T)
  | wakeLock (role : BarrierRole T)
  /-- `!inst->finished`, with so many turns of the spinning loop left after this one. -/
  | spin (spins : Nat)
  | finish
  | loop
  | waitFinished (o : T) (point : WaitPoint)
  | setLast (o : T)
  | lastWaiters (o : T)
  | wakeLast (o : T)
  | waitLast (o : T) (point : CountedWait)
  | dropCount (o : T)
  | addFinished (o : T)
  | wakeFinished (o : T)
deriving Repr, DecidableEq

/-- A thread, with the number of its calls that have returned, and of those among them that
have returned `PTHREAD_BARRIER_SERIAL_THREAD`. -/
structure BarrierThread (T : Type) where
  returns : Nat
  serials : Nat
  point : BarrierPoint T
deriving Repr, DecidableEq

abbrev BarrierState (T : Type) := FutexState (BarrierMemory T) (BarrierThread T) T

/-- What follows when the lock has been given back. -/
def BarrierRole.next {T : Type} : BarrierRole T → BarrierPoint T
  | .owner => .spin 199
  | .last o => .setLast o
  | .middle o => .waitLast o .start

variable {T : Type}

def BarrierThread.go (c : BarrierThread T) (point : BarrierPoint T) : BarrierThread T :=
  { c with point }

def BarrierThread.returned (c : BarrierThread T) (serial : Bool) : BarrierThread T :=
  ⟨c.returns + 1, if serial then c.serials + 1 else c.serials, .outside⟩

section

variable [DecidableEq T]

def BarrierMemory.setFrame (m : BarrierMemory T) (o : T) (f : Instance) : BarrierMemory T :=
  { m with frames := Function.update m.frames o f }

/-- One access to the barrier or to the instance. -/
def BarrierThread.run (limit : Nat) (t : T) (m : BarrierMemory T) (c : BarrierThread T) :
    Option (BarrierMemory T × BarrierThread T) :=
  match c.point with
  | .swapLock =>
      some ({ m with lock := 1 }, c.go (if m.lock = 0 then .readInst else .waitLock .start))
  | .waitLock point =>
      (point.turn (m.lock = 1) m.waiters (fun point => c.go (.waitLock point))
        (c.go .swapLock)).map fun next => ({ m with waiters := next.1 }, next.2)
  | .readInst => some (m, c.go (m.inst.elim .setInst .loadCount))
  | .setInst =>
      some ({ m with inst := some t, frames := Function.update m.frames t ⟨0, 0, 0, 0⟩ },
        c.go (.unlock .owner))
  | .loadCount o => some (m, c.go (.storeCount o (m.frames o).count))
  | .storeCount o count =>
      some (m.setFrame o { m.frames o with count := count + 1 },
        c.go (if count + 1 = limit then .clearInst o else .unlock (.middle o)))
  | .clearInst o => some ({ m with inst := none }, c.go (.unlock (.last o)))
  | .unlock role => some ({ m with lock := 0 }, c.go (.readWaiters role))
  | .readWaiters role => some (m, c.go (if m.waiters ≠ 0 then .wakeLock role else role.next))
  | .spin spins =>
      some (m, c.go <|
        if (m.frames t).finished ≠ 0 then .finish
        else match spins with
          | 0 => .finish
          | spins + 1 => .spin spins)
  | .finish =>
      some (m.setFrame t { m.frames t with finished := (m.frames t).finished + 1 }, c.go .loop)
  | .loop =>
      some (m, if (m.frames t).finished = 1 then c.go (.waitFinished t (.looking SPINS))
        else c.returned true)
  | .waitFinished o point =>
      (point.turn ((m.frames o).finished = 1) (fun point => c.go (.waitFinished o point))
        (c.go .loop)).map fun c => (m, c)
  | .setLast o => some (m.setFrame o { m.frames o with last := 1 }, c.go (.lastWaiters o))
  | .lastWaiters o =>
      some (m, c.go (if (m.frames o).waiters ≠ 0 then .wakeLast o else .dropCount o))
  | .waitLast o point =>
      (point.turn ((m.frames o).last = 0) (m.frames o).waiters
        (fun point => c.go (.waitLast o point)) (c.go (.dropCount o))).map fun next =>
          (m.setFrame o { m.frames o with waiters := next.1 }, next.2)
  | .dropCount o =>
      some (m.setFrame o { m.frames o with
          count := ((m.frames o).count + 0xffffffff) % 0x100000000 },
        if (m.frames o).count = 1 then c.go (.addFinished o) else c.returned false)
  | .addFinished o =>
      some (m.setFrame o { m.frames o with finished := (m.frames o).finished + 1 },
        if (m.frames o).finished ≠ 0 then c.go (.wakeFinished o) else c.returned false)
  | .outside | .wakeLock _ | .wakeLast _ | .wakeFinished _ => none

def BarrierPoint.asleep : BarrierPoint T → Bool
  | .waitLock .asleep | .waitFinished _ .asleep | .waitLast _ .asleep => true
  | _ => false

/-- The thread has arrived in a round, and its call has not returned. -/
def BarrierPoint.arrived : BarrierPoint T → Nat
  | .outside | .swapLock | .waitLock _ | .readInst | .setInst | .loadCount _ | .storeCount _ _ => 0
  | _ => 1

/-- The thread with the instance that this one has still to read or to write. -/
def BarrierPoint.uses : BarrierPoint T → Option T
  | .loadCount o | .storeCount o _ | .clearInst o | .setLast o | .lastWaiters o | .wakeLast o
  | .waitLast o _ | .dropCount o | .addFinished o => some o
  | .unlock role | .readWaiters role | .wakeLock role =>
      match role with
      | .owner => none
      | .last o | .middle o => some o
  | _ => none

/-- The frame of the thread has `new_inst`. -/
def BarrierPoint.owns : BarrierPoint T → Bool
  | .unlock .owner | .readWaiters .owner | .wakeLock .owner | .spin _ | .finish | .loop
  | .waitFinished _ _ => true
  | _ => false

/-- The word that the first thread wakes is the one that the second waits for. -/
def BarrierPoint.hears : BarrierPoint T → BarrierPoint T → Bool
  | .wakeLock _, .waitLock .asleep => true
  | .wakeLast o, .waitLast o' .asleep => o = o'
  | .wakeFinished o, .waitFinished o' .asleep => o = o'
  | _, _ => false

def BarrierPoint.roused : BarrierPoint T → BarrierPoint T
  | .waitLock .asleep => .waitLock .test
  | .waitFinished o .asleep => .waitFinished o (.looking 0)
  | .waitLast o .asleep => .waitLast o .test
  | point => point

def BarrierThread.refused (m : BarrierMemory T) (c : BarrierThread T) : Option (BarrierThread T) :=
  match c.point with
  | .waitLock point => point.refused (m.lock = 1) (fun point => c.go (.waitLock point))
  | .waitFinished o point =>
      point.refused ((m.frames o).finished = 1) (fun point => c.go (.waitFinished o point))
  | .waitLast o point =>
      point.refused ((m.frames o).last = 0) (fun point => c.go (.waitLast o point))
  | _ => none

/-- `pthread_barrier_wait` on a barrier for one process with a count of two threads or more,
where `limit` is the count less one. -/
def pthreadBarrier (limit : Nat) : FutexProgram (BarrierMemory T) (BarrierThread T) T where
  run := BarrierThread.run limit
  call c c' := c.point = .outside ∧ c' = c.go .swapLock
  asleep c := c.point.asleep
  hears c c' := c.point.hears c'.point
  roused c := c.go c.point.roused
  stirred c := c.go c.point.roused
  refused := BarrierThread.refused
  wakes c :=
    match c.point with
    | .wakeLock role => some (.one, c.go role.next)
    | .wakeLast o => some (.all, c.go (.dropCount o))
    | .wakeFinished _ => some (.one, c.returned false)
    | _ => none

omit [DecidableEq T] in
/-- Where a thread goes on that the host does not let sleep. -/
theorem BarrierThread.refused_cases {m : BarrierMemory T} {c c' : BarrierThread T}
    (hrefused : c.refused m = some c') :
    c.point = .waitLock .entering ∧ c' = c.go (.waitLock .test) ∨
      ∃ o, c.point = .waitFinished o .entering ∧ c' = c.go (.waitFinished o (.looking 0)) ∨
        c.point = .waitLast o .entering ∧ c' = c.go (.waitLast o .test) := by
  unfold BarrierThread.refused at hrefused
  split at hrefused
  · rename_i point hpoint
    obtain ⟨rfl, -, rfl⟩ := CountedWait.refused_cases hrefused
    exact Or.inl ⟨hpoint, rfl⟩
  · rename_i o point hpoint
    obtain ⟨rfl, -, rfl⟩ := WaitPoint.refused_cases hrefused
    exact Or.inr ⟨o, Or.inl ⟨hpoint, rfl⟩⟩
  · rename_i o point hpoint
    obtain ⟨rfl, -, rfl⟩ := CountedWait.refused_cases hrefused
    exact Or.inr ⟨o, Or.inr ⟨hpoint, rfl⟩⟩
  · cases hrefused

instance {limit : Nat} (c c' : BarrierThread T) :
    Decidable ((pthreadBarrier limit).call c c') :=
  inferInstanceAs (Decidable (c.point = .outside ∧ c' = c.go .swapLock))

end

end Sync

end WasixLibc
