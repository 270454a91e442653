/-
One thread that handles signals.

Handlers are application code that calls libc again, so what runs is a stack of
frames: the application at some depth, or a libc function that is about to do
something or waits for what it has called.  Each turn of the thread is a choice
of the host (a delivery), of the application (a call), or the next piece of a
libc function, and reports an event.

Locks are left out, since no other thread contends for them.
-/
import WasixLibc.SignalSet

namespace WasixLibc

namespace Signal

abbrev SA_SIGINFO : BitVec 32 := 4
abbrev SA_RESTORER : BitVec 32 := 0x04000000
abbrev SA_RESTART : BitVec 32 := 0x10000000
abbrev SA_NODEFER : BitVec 32 := 0x40000000
abbrev SA_RESETHAND : BitVec 32 := 0x80000000

abbrev SIG_BLOCK : BitVec 32 := 0
abbrev SIG_UNBLOCK : BitVec 32 := 1
abbrev SIG_SETMASK : BitVec 32 := 2

/-- The disposition of a signal.  `SIG_IGN` is a function of libc, and a
function of the application has three arguments if `info` is true. -/
inductive Handler where
  | sigDfl
  | sigIgn
  | func (info : Bool) (id : Nat)
deriving Repr, DecidableEq

/-- A call at the wrong number of arguments traps. -/
def Handler.takesInfo : Handler → Bool
  | .func info _ => info
  | _ => false

/-- `struct sigaction`. -/
structure Sigaction where
  handler : Handler
  flags : BitVec 32
  mask : Sigset
deriving Repr, DecidableEq

/-- `struct k_sigaction` without the restorer, which is never called. -/
structure KSigaction where
  handler : Handler := .sigDfl
  flags : BitVec 32 := 0
  mask : Sigset := 0
deriving Repr, DecidableEq

inductive DefaultAction where
  | core
  | ignore
  | stop
  | cont
  | terminate
deriving Repr, DecidableEq

/-- The switch of `__default_handler`. -/
def defaultAction (sig : Nat) : Option DefaultAction :=
  if sig ∈ [SIGABRT, SIGBUS, SIGFPE, SIGILL, SIGQUIT, SIGSEGV, SIGSYS, SIGTRAP, SIGXCPU,
      SIGXFSZ] then some .core
  else if sig ∈ [SIGCHLD, SIGURG, SIGWINCH] then some .ignore
  else if sig = SIGCONT then some .cont
  else if sig ∈ [SIGSTOP, SIGTSTP, SIGTTIN, SIGTTOU] then some .stop
  else if sig ∈ [SIGHUP, SIGINT, SIGKILL, SIGUSR1, SIGUSR2, SIGPIPE, SIGALRM, SIGTERM,
      SIGSTKFLT, SIGVTALRM, SIGPROF, SIGIO, SIGPWR] then some .terminate
  else none

/-- The handlers of these actions end in `abort()`. -/
def DefaultAction.aborts : DefaultAction → Bool
  | .core | .stop | .terminate => true
  | .ignore | .cont => false

/-- `trapped` is a call through a null pointer or at the wrong type, `aborted`
the terminating action of a signal, `exited` a start-up that failed. -/
inductive Status where
  | running
  | trapped
  | aborted
  | exited
deriving Repr, DecidableEq

inductive SigResult where
  | ok
  | einval
deriving Repr, DecidableEq

/-- What `__wasm_signal` did with its signal. -/
inductive Outcome where
  | ignored
  | pended
  | dispatched
deriving Repr, DecidableEq

/-- A call of libc with its result.  `old` is what `pthread_sigmask` stores
through a pointer that is not null. -/
inductive LibcCall where
  | wasmSignal (sig : BitVec 32) (outcome : Outcome)
  | pthreadSigmask (how : BitVec 32) (set : Option Sigset) (result : SigResult)
      (old : Option Sigset)
  | restoreSigs (set : Option Sigset)
  | sigaction (sig : BitVec 32) (result : SigResult)
deriving Repr, DecidableEq

/-- The sets of the thread when a call was made. -/
structure Entry where
  sigmask : Sigset
  sigpending : Sigset
deriving Repr, DecidableEq

/-- What runs, and what waits for it.

`app` is the application: the main program, or the invocation `inv` of a
handler, with the sets saved by the sections it has opened with
`__block_all_sigs` and `__block_app_sigs`; a section opened with a null pointer
saved none.  `dispatch` waits for the handler it has called, and `drained`
says that `__sig_deliver_pending` started it. -/
inductive Frame where
  | app (inv : Nat) (sections : List (Option Sigset))
  | wasmSignal (sig : BitVec 32)
  | dispatchSignal (sig : Nat)
  | dispatch (inv sig : Nat) (drained : Bool) (saved : Sigset)
  | deliverPending
  | restoreSigs (set : Sigset)
  | libcSigaction (sig : Nat) (sa : Option Sigaction) (set : Option Sigset)
  | initSignals (dispositions : List (BitVec 8 × BitVec 8))
  | ret (call : LibcCall) (entry : Entry)
deriving Repr, DecidableEq

inductive MaskFn where
  | pthreadSigmask
  | restoreSigs
deriving Repr, DecidableEq

/-- What a turn shows.  `already` of `pended` says that the signal was pending
before, and `masked` shows the mask before and after the call. -/
inductive Event where
  | internal
  | delivered (sig : BitVec 32)
  | ignored (sig : BitVec 32)
  | pended (sig : Nat) (already : Bool)
  | cleared (sig : Nat)
  | dispatched (inv sig : Nat) (ksa : KSigaction)
  | finished (inv : Nat)
  | masked (fn : MaskFn) (before after : Sigset)
  | installed (sig : Nat) (ksa : KSigaction)
  | returned (call : LibcCall) (entry : Entry)
deriving Repr, DecidableEq

/-- A thread.  `callbacks` is `__eintr_handler_callbacks`, `hasDefault` says
that `default_handler` is not null, and `invocations` numbers the handlers. -/
structure Thread where
  stack : List Frame
  sigmask : Sigset := 0
  sigpending : Sigset := 0
  callbacks : Nat → KSigaction := fun _ => {}
  hasDefault : Bool := false
  registered : Bool := false
  status : Status := .running
  invocations : Nat := 0

def Thread.entry (st : Thread) : Entry := ⟨st.sigmask, st.sigpending⟩

def setCallback (sig : Nat) (ksa : KSigaction) (callbacks : Nat → KSigaction) :
    Nat → KSigaction := fun n => if n = sig then ksa else callbacks n

/-! `dispatch_signal` -/

/-- `SA_RESETHAND` resets the disposition on entry to the handler. -/
def resetHandler (sig : Nat) (ksa : KSigaction) (callbacks : Nat → KSigaction) :
    Nat → KSigaction :=
  if ksa.handler ≠ .sigDfl ∧ ksa.flags &&& SA_RESETHAND ≠ 0 then setCallback sig {} callbacks
  else callbacks

/-- The mask a handler, or a default action, runs with. -/
def handlerMask (sig : Nat) (ksa : KSigaction) (sigmask : Sigset) : Sigset :=
  if ksa.handler = .sigDfl then sigsetOr sigmask sigfillset
  else
    let sigmask := sigsetOr sigmask ksa.mask
    if ksa.flags &&& SA_NODEFER = 0 then sigsetAdd sigmask sig else sigmask

/-- `default_handler(sig)`. -/
def callDefault (sig : Nat) (st : Thread) : Thread :=
  if st.hasDefault then
    if (defaultAction sig).any DefaultAction.aborts then { st with status := .aborted } else st
  else { st with status := .trapped }

/-- The call of the handler, with one argument or with three. -/
def callHandler (ksa : KSigaction) (inv : Nat) (st : Thread) : Thread :=
  if ksa.handler.takesInfo = decide (ksa.flags &&& SA_SIGINFO ≠ 0) then
    match ksa.handler with
    | .func .. => { st with stack := .app inv [] :: st.stack }
    | _ => st
  else { st with status := .trapped }

/-- `dispatch_signal` up to and including the call; it returns to `rest`. -/
def dispatchSignal (sig : Nat) (drained : Bool) (rest : List Frame) (st : Thread) :
    Event × Thread :=
  let ksa := st.callbacks sig
  let inv := st.invocations + 1
  let called := { st with
    callbacks := resetHandler sig ksa st.callbacks
    invocations := inv
    sigmask := handlerMask sig ksa st.sigmask
    stack := .dispatch inv sig drained st.sigmask :: rest }
  (.dispatched inv sig ksa,
    if ksa.handler = .sigDfl then callDefault sig called else callHandler ksa inv called)

/-! The other functions -/

/-- One turn of the loop of `__sig_deliver_pending`. -/
def sigDeliverPending (rest : List Frame) (st : Thread) : Event × Thread :=
  match nextPending st.sigpending st.sigmask with
  | none => (.internal, { st with stack := rest })
  | some sig =>
      (.cleared sig, { st with
        sigpending := sigsetDel st.sigpending sig
        stack := .dispatchSignal sig :: .deliverPending :: rest })

def wasmSignal (sig : BitVec 32) (rest : List Frame) (st : Thread) : Event × Thread :=
  if badSig sig then
    (.ignored sig, { st with stack := .ret (.wasmSignal sig .ignored) st.entry :: rest })
  else if sigsetTest st.sigmask sig.toNat then
    (.pended sig.toNat (sigsetTest st.sigpending sig.toNat), { st with
      sigpending := sigsetAdd st.sigpending sig.toNat
      stack := .ret (.wasmSignal sig .pended) st.entry :: rest })
  else
    dispatchSignal sig.toNat false
      (.deliverPending :: .ret (.wasmSignal sig .dispatched) st.entry :: rest) st

/-- The switch of `pthread_sigmask`. -/
def nextMask (how : BitVec 32) (set sigmask : Sigset) : Sigset :=
  let next :=
    if how = SIG_BLOCK then sigsetOr sigmask set
    else if how = SIG_UNBLOCK then sigsetAndnot sigmask set
    else if how = SIG_SETMASK then sigsetCopy sigmask set
    else sigmask
  sigsetDel (sigsetDel (sigsetDel next SIGTIMER) SIGCANCEL) SIGSYNCCALL

/-- What `pthread_sigmask` returns to: the loop, unless it blocks. -/
def sigmaskFrames (how : BitVec 32) (ret : Frame) : List Frame :=
  if how ≠ SIG_BLOCK then [.deliverPending, ret] else [ret]

def pthreadSigmask (how : BitVec 32) (set : Option Sigset) (st : Thread) : Event × Thread :=
  let old := st.sigmask &&& ~~~internalMask
  match set with
  | none =>
      (.internal, { st with
        stack := .ret (.pthreadSigmask how none .ok (some old)) st.entry :: st.stack })
  | some bits =>
      if 2 < how - SIG_BLOCK then
        (.internal, { st with
          stack := .ret (.pthreadSigmask how set .einval none) st.entry :: st.stack })
      else
        (.masked .pthreadSigmask st.sigmask (nextMask how bits st.sigmask), { st with
          sigmask := nextMask how bits st.sigmask
          stack := sigmaskFrames how
            (.ret (.pthreadSigmask how set .ok (some old)) st.entry) ++ st.stack })

/-- `__block_all_sigs` and `__block_app_sigs`, which differ in the mask. -/
def blockSigs (mask : Sigset) (keep : Bool) (inv : Nat) (sections : List (Option Sigset))
    (rest : List Frame) (st : Thread) : Event × Thread :=
  (.internal, { st with
    sigmask := sigsetOr st.sigmask mask
    stack := .app inv ((if keep then some st.sigmask else none) :: sections) :: rest })

/-- The sections left after a restore: the last one that saved a set is
closed, and those opened in it without saving one. -/
def closeSection : List (Option Sigset) → List (Option Sigset)
  | [] => []
  | none :: sections => closeSection sections
  | some _ :: sections => sections

/-- `__restore_sigs` at its call. -/
def callRestoreSigs (set : Option Sigset) (inv : Nat) (sections : List (Option Sigset))
    (rest : List Frame) (st : Thread) : Event × Thread :=
  (.internal, { st with
    stack := match set with
      | some bits => .restoreSigs bits :: .app inv (closeSection sections) :: rest
      | none =>
          .deliverPending :: .ret (.restoreSigs none) st.entry :: .app inv sections :: rest })

/-- `__restore_sigs` with a set. -/
def restoreSigs (set : Sigset) (rest : List Frame) (st : Thread) : Event × Thread :=
  (.masked .restoreSigs st.sigmask (sigsetCopy st.sigmask set), { st with
    sigmask := sigsetCopy st.sigmask set
    stack := .deliverPending :: .ret (.restoreSigs (some set)) st.entry :: rest })

/-- `__sigaction` up to the registration of the callback in
`__libc_sigaction`; the disposition of `SIGABRT` changes in a section. -/
def sigaction (sig : BitVec 32) (sa : Option Sigaction) (st : Thread) : Thread :=
  if badSig sig then
    { st with
      hasDefault := true
      stack := .ret (.sigaction sig .einval) st.entry :: st.stack }
  else if sig.toNat = SIGABRT then
    { st with
      hasDefault := true
      registered := true
      sigmask := sigsetOr st.sigmask allMask
      stack := .libcSigaction sig.toNat sa (some st.sigmask) ::
        .ret (.sigaction sig .ok) st.entry :: st.stack }
  else
    { st with
      hasDefault := true
      registered := true
      stack := .libcSigaction sig.toNat sa none ::
        .ret (.sigaction sig .ok) st.entry :: st.stack }

def Sigaction.toKernel (sa : Sigaction) : KSigaction :=
  { handler := sa.handler, flags := sa.flags ||| SA_RESTORER, mask := sa.mask }

/-- The rest of `__libc_sigaction`, and of the section around it. -/
def libcSigaction (sig : Nat) (sa : Option Sigaction) (set : Option Sigset)
    (rest : List Frame) (st : Thread) : Event × Thread :=
  let stack := (set.map Frame.restoreSigs).toList ++ rest
  match sa with
  | none => (.internal, { st with stack := stack })
  | some sa =>
      (.installed sig sa.toKernel, { st with
        callbacks := setCallback sig sa.toKernel st.callbacks
        stack := stack })

/-- One turn of the loop of `__wasi_init_signals`, or its end. -/
def wasiInitSignals (dispositions : List (BitVec 8 × BitVec 8)) (rest : List Frame)
    (st : Thread) : Thread :=
  match dispositions with
  | [] => { st with registered := true, stack := rest }
  | (sig, disp) :: more =>
      if 1 < disp ∨ badSig (sig.setWidth 32) then { st with status := .exited }
      else
        sigaction (sig.setWidth 32)
          (some ⟨if disp = 0 then .sigDfl else .sigIgn, SA_RESTART, 0⟩)
          { st with stack := .initSignals more :: rest }

/-! Turns -/

/-- What the application can do.  `wasiInitSignals none` is a start-up the
host refused to tell the dispositions. -/
inductive AppOp where
  | pthreadSigmask (how : BitVec 32) (set : Option Sigset)
  | blockAllSigs (keep : Bool)
  | blockAppSigs (keep : Bool)
  | restoreSigs (set : Option Sigset)
  | sigaction (sig : BitVec 32) (sa : Option Sigaction)
  | wasiInitSignals (dispositions : Option (List (BitVec 8 × BitVec 8)))
  | handlerReturn
deriving Repr, DecidableEq

/-- A call made by the application frame `inv` on top of `rest`. -/
def AppOp.exec (op : AppOp) (inv : Nat) (sections : List (Option Sigset)) (rest : List Frame)
    (st : Thread) : Option (Event × Thread) :=
  match op with
  | .pthreadSigmask how set => some (Signal.pthreadSigmask how set st)
  | .blockAllSigs keep => some (blockSigs allMask keep inv sections rest st)
  | .blockAppSigs keep => some (blockSigs sigfillset keep inv sections rest st)
  | .restoreSigs set => some (callRestoreSigs set inv sections rest st)
  | .sigaction sig sa => some (.internal, Signal.sigaction sig sa st)
  | .wasiInitSignals (some dispositions) =>
      some (.internal, { st with stack := .initSignals dispositions :: st.stack })
  | .wasiInitSignals none => some (.internal, { st with status := .exited })
  | .handlerReturn => if rest = [] then none else some (.internal, { st with stack := rest })

/-- The next piece of the libc function on top of `rest`. -/
def libcTurn (top : Frame) (rest : List Frame) (st : Thread) : Option (Event × Thread) :=
  match top with
  | .app .. => none
  | .wasmSignal sig => some (wasmSignal sig rest st)
  | .dispatchSignal sig => some (dispatchSignal sig true rest st)
  | .dispatch inv _ _ saved =>
      some (.finished inv, { st with sigmask := saved, stack := rest })
  | .deliverPending => some (sigDeliverPending rest st)
  | .restoreSigs set => some (restoreSigs set rest st)
  | .libcSigaction sig sa set => some (libcSigaction sig sa set rest st)
  | .initSignals dispositions => some (.internal, wasiInitSignals dispositions rest st)
  | .ret call entry => some (.returned call entry, { st with stack := rest })

/-- Code that makes calls to the host, which delivers signals there. -/
def Frame.callsHost : Frame → Bool
  | .app .. => true
  | .libcSigaction .. => true
  | _ => false

inductive Choice where
  | deliver (sig : BitVec 32)
  | app (op : AppOp)
  | libc
deriving Repr, DecidableEq

def Thread.turn (c : Choice) (st : Thread) : Option (Event × Thread) :=
  if st.status = .running then
    match c, st.stack with
    | .deliver sig, top :: rest =>
        if st.registered && top.callsHost then
          some (.delivered sig, { st with stack := .wasmSignal sig :: top :: rest })
        else none
    | .app op, .app inv sections :: rest => op.exec inv sections rest st
    | .libc, top :: rest => libcTurn top rest st
    | _, _ => none
  else none

end Signal

end WasixLibc
