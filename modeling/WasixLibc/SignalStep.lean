/-
What one turn of a thread can do.

`Turn` has a constructor for each branch of the libc functions and for each
call of the application; invariants are checked against it, never against the
functions.
-/
import WasixLibc.LabelledRun
import WasixLibc.SignalThread

namespace WasixLibc

namespace Signal

/-- What `dispatch_signal` has done when the handler, if it is one of the
application, starts; `rest` is what it returns to. -/
structure Dispatches (sig : Nat) (drained : Bool) (rest : List Frame) (st st' : Thread) :
    Prop where
  stack_cases :
    st'.stack = .dispatch (st.invocations + 1) sig drained st.sigmask :: rest ∨
      (∃ info id, (st.callbacks sig).handler = .func info id) ∧
        st'.stack = .app (st.invocations + 1) [] ::
          .dispatch (st.invocations + 1) sig drained st.sigmask :: rest
  sigmask_eq : st'.sigmask = handlerMask sig (st.callbacks sig) st.sigmask
  sigpending_eq : st'.sigpending = st.sigpending
  callbacks_eq : st'.callbacks = resetHandler sig (st.callbacks sig) st.callbacks
  hasDefault_eq : st'.hasDefault = st.hasDefault
  registered_eq : st'.registered = st.registered
  invocations_eq : st'.invocations = st.invocations + 1
  default_status : (st.callbacks sig).handler = .sigDfl →
    st'.status = (callDefault sig st).status

theorem dispatchSignal_dispatches (sig : Nat) (drained : Bool) (rest : List Frame)
    (st : Thread) :
    (dispatchSignal sig drained rest st).1 =
        .dispatched (st.invocations + 1) sig (st.callbacks sig) ∧
      Dispatches sig drained rest st (dispatchSignal sig drained rest st).2 := by
  refine ⟨rfl, ?_⟩
  unfold dispatchSignal
  dsimp only
  split
  · unfold callDefault
    split
    · split <;> exact ⟨Or.inl rfl, rfl, rfl, rfl, rfl, rfl, rfl, fun _ => by simp_all [callDefault]⟩
    · exact ⟨Or.inl rfl, rfl, rfl, rfl, rfl, rfl, rfl, fun _ => by simp_all [callDefault]⟩
  · rename_i hhandler
    have hnot : ∀ {p : Prop}, (st.callbacks sig).handler = .sigDfl → p :=
      fun h => absurd h hhandler
    unfold callHandler
    split
    · split
      · rename_i info id hfunc
        exact ⟨Or.inr ⟨⟨info, id, hfunc⟩, rfl⟩, rfl, rfl, rfl, rfl, rfl, rfl, hnot⟩
      · exact ⟨Or.inl rfl, rfl, rfl, rfl, rfl, rfl, rfl, hnot⟩
    · exact ⟨Or.inl rfl, rfl, rfl, rfl, rfl, rfl, rfl, hnot⟩

/-- No application signal is at once pending and unblocked. -/
def Quiescent (st : Thread) : Prop :=
  ∀ sig, AppSig sig → sigsetTest st.sigpending sig = true → sigsetTest st.sigmask sig = true

/-- `sigaction` is called by the application or by the loop of start-up; the
second list is the stack it returns to. -/
inductive SigactionCall : List Frame → List Frame → Prop
  | app {inv : Nat} {sections : List (Option Sigset)} {rest : List Frame} :
      SigactionCall (.app inv sections :: rest) (.app inv sections :: rest)
  | init {disposition : BitVec 8 × BitVec 8} {more : List (BitVec 8 × BitVec 8)}
      {rest : List Frame} :
      SigactionCall (.initSignals (disposition :: more) :: rest) (.initSignals more :: rest)

/-- The branches of a turn. -/
inductive Turn (st : Thread) : Event → Thread → Prop
  | delivered {sig : BitVec 32} {top : Frame} {rest : List Frame} :
      st.stack = top :: rest → top.callsHost = true → st.registered = true →
      Turn st (.delivered sig) { st with stack := .wasmSignal sig :: top :: rest }
  -- `__wasm_signal`
  | ignored {sig : BitVec 32} {rest : List Frame} :
      st.stack = .wasmSignal sig :: rest → ¬ AppSig sig.toNat →
      Turn st (.ignored sig)
        { st with stack := .ret (.wasmSignal sig .ignored) st.entry :: rest }
  | pended {sig : BitVec 32} {rest : List Frame} :
      st.stack = .wasmSignal sig :: rest → AppSig sig.toNat →
      sigsetTest st.sigmask sig.toNat = true →
      Turn st (.pended sig.toNat (sigsetTest st.sigpending sig.toNat))
        { st with
          sigpending := sigsetAdd st.sigpending sig.toNat
          stack := .ret (.wasmSignal sig .pended) st.entry :: rest }
  | dispatched {sig : BitVec 32} {rest : List Frame} {st' : Thread} :
      st.stack = .wasmSignal sig :: rest → AppSig sig.toNat →
      sigsetTest st.sigmask sig.toNat = false →
      Dispatches sig.toNat false
        (.deliverPending :: .ret (.wasmSignal sig .dispatched) st.entry :: rest) st st' →
      Turn st (.dispatched (st.invocations + 1) sig.toNat (st.callbacks sig.toNat)) st'
  -- `dispatch_signal` called by the loop, and its end
  | drained {sig : Nat} {rest : List Frame} {st' : Thread} :
      st.stack = .dispatchSignal sig :: rest → Dispatches sig true rest st st' →
      Turn st (.dispatched (st.invocations + 1) sig (st.callbacks sig)) st'
  | finished {inv sig : Nat} {drained : Bool} {saved : Sigset} {rest : List Frame} :
      st.stack = .dispatch inv sig drained saved :: rest →
      Turn st (.finished inv) { st with sigmask := saved, stack := rest }
  -- `__sig_deliver_pending`
  | cleared {sig : Nat} {rest : List Frame} :
      st.stack = .deliverPending :: rest → AppSig sig →
      sigsetTest st.sigpending sig = true → sigsetTest st.sigmask sig = false →
      Turn st (.cleared sig)
        { st with
          sigpending := sigsetDel st.sigpending sig
          stack := .dispatchSignal sig :: .deliverPending :: rest }
  | idle {rest : List Frame} : st.stack = .deliverPending :: rest → Quiescent st →
      Turn st .internal { st with stack := rest }
  | returned {call : LibcCall} {entry : Entry} {rest : List Frame} :
      st.stack = .ret call entry :: rest →
      Turn st (.returned call entry) { st with stack := rest }
  -- `pthread_sigmask`
  | masked {how : BitVec 32} {bits : Sigset} {inv : Nat} {sections : List (Option Sigset)}
      {rest : List Frame} :
      st.stack = .app inv sections :: rest → ¬ 2 < how - SIG_BLOCK →
      Turn st (.masked .pthreadSigmask st.sigmask (nextMask how bits st.sigmask))
        { st with
          sigmask := nextMask how bits st.sigmask
          stack := sigmaskFrames how (.ret (.pthreadSigmask how (some bits) .ok
            (some (st.sigmask &&& ~~~internalMask))) st.entry) ++ st.stack }
  | queriedMask {how : BitVec 32} {inv : Nat} {sections : List (Option Sigset)}
      {rest : List Frame} : st.stack = .app inv sections :: rest →
      Turn st .internal
        { st with
          stack := .ret (.pthreadSigmask how none .ok
            (some (st.sigmask &&& ~~~internalMask))) st.entry :: st.stack }
  | refusedMask {how : BitVec 32} {bits : Sigset} {inv : Nat}
      {sections : List (Option Sigset)} {rest : List Frame} :
      st.stack = .app inv sections :: rest → 2 < how - SIG_BLOCK →
      Turn st .internal
        { st with
          stack := .ret (.pthreadSigmask how (some bits) .einval none) st.entry :: st.stack }
  -- block and restore
  | blocked {mask : Sigset} {keep : Bool} {inv : Nat} {sections : List (Option Sigset)}
      {rest : List Frame} : st.stack = .app inv sections :: rest →
      Turn st .internal
        { st with
          sigmask := sigsetOr st.sigmask mask
          stack := .app inv ((if keep then some st.sigmask else none) :: sections) :: rest }
  | callRestore {bits : Sigset} {inv : Nat} {sections : List (Option Sigset)}
      {rest : List Frame} : st.stack = .app inv sections :: rest →
      Turn st .internal
        { st with stack := .restoreSigs bits :: .app inv (closeSection sections) :: rest }
  | callRestoreNull {inv : Nat} {sections : List (Option Sigset)} {rest : List Frame} :
      st.stack = .app inv sections :: rest →
      Turn st .internal
        { st with
          stack := .deliverPending :: .ret (.restoreSigs none) st.entry :: st.stack }
  | restored {set : Sigset} {rest : List Frame} : st.stack = .restoreSigs set :: rest →
      Turn st (.masked .restoreSigs st.sigmask set)
        { st with
          sigmask := set
          stack := .deliverPending :: .ret (.restoreSigs (some set)) st.entry :: rest }
  -- `sigaction` and start-up
  | refusedAction {sig : BitVec 32} {inv : Nat} {sections : List (Option Sigset)}
      {rest : List Frame} : st.stack = .app inv sections :: rest →
      Turn st .internal
        { st with
          hasDefault := true
          stack := .ret (.sigaction sig .einval) st.entry :: st.stack }
  | action {sig : BitVec 32} {sa : Option Sigaction} {below : List Frame} :
      SigactionCall st.stack below → AppSig sig.toNat → sig.toNat ≠ SIGABRT →
      Turn st .internal
        { st with
          hasDefault := true
          registered := true
          stack := .libcSigaction sig.toNat sa none ::
            .ret (.sigaction sig .ok) st.entry :: below }
  | actionAbort {sig : BitVec 32} {sa : Option Sigaction} {below : List Frame} :
      SigactionCall st.stack below → sig.toNat = SIGABRT →
      Turn st .internal
        { st with
          hasDefault := true
          registered := true
          sigmask := sigsetOr st.sigmask allMask
          stack := .libcSigaction sig.toNat sa (some st.sigmask) ::
            .ret (.sigaction sig .ok) st.entry :: below }
  | installed {sig : Nat} {sa : Sigaction} {set : Option Sigset} {rest : List Frame} :
      st.stack = .libcSigaction sig (some sa) set :: rest →
      Turn st (.installed sig sa.toKernel)
        { st with
          callbacks := setCallback sig sa.toKernel st.callbacks
          stack := (set.map Frame.restoreSigs).toList ++ rest }
  | queriedAction {sig : Nat} {set : Option Sigset} {rest : List Frame} :
      st.stack = .libcSigaction sig none set :: rest →
      Turn st .internal { st with stack := (set.map Frame.restoreSigs).toList ++ rest }
  | startUp {dispositions : List (BitVec 8 × BitVec 8)} {inv : Nat}
      {sections : List (Option Sigset)} {rest : List Frame} :
      st.stack = .app inv sections :: rest →
      Turn st .internal { st with stack := .initSignals dispositions :: st.stack }
  | started {rest : List Frame} : st.stack = .initSignals [] :: rest →
      Turn st .internal { st with registered := true, stack := rest }
  | refusedStart {inv : Nat} {sections : List (Option Sigset)} {rest : List Frame} :
      st.stack = .app inv sections :: rest →
      Turn st .internal { st with status := .exited }
  | exited {dispositions : List (BitVec 8 × BitVec 8)} {rest : List Frame} :
      st.stack = .initSignals dispositions :: rest →
      Turn st .internal { st with status := .exited }
  -- the end of a handler
  | handlerReturn {inv : Nat} {sections : List (Option Sigset)} {rest : List Frame} :
      st.stack = .app inv sections :: rest → rest ≠ [] →
      Turn st .internal { st with stack := rest }

theorem sigaction_turn {sig : BitVec 32} {sa : Option Sigaction} {st : Thread}
    {below : List Frame} (hcall : SigactionCall st.stack below) (hgood : AppSig sig.toNat) :
    Turn st .internal (sigaction sig sa { st with stack := below }) := by
  have hbad : badSig sig = false := (badSig_eq_false_iff sig).mpr hgood
  unfold sigaction
  simp only [hbad, Bool.false_eq_true, ↓reduceIte]
  by_cases habort : sig.toNat = SIGABRT
  · rw [if_pos habort]
    exact .actionAbort hcall habort
  · rw [if_neg habort]
    exact .action hcall hgood habort

theorem AppOp.exec_turn {op : AppOp} {inv : Nat} {sections : List (Option Sigset)}
    {rest : List Frame} {st st' : Thread} {e : Event}
    (hstack : st.stack = .app inv sections :: rest)
    (h : op.exec inv sections rest st = some (e, st')) : Turn st e st' := by
  cases op with
  | pthreadSigmask how set =>
      simp only [AppOp.exec, Signal.pthreadSigmask, Option.some.injEq] at h
      cases set with
      | none =>
          obtain ⟨rfl, rfl⟩ := Prod.mk.inj h
          exact .queriedMask hstack
      | some bits =>
          dsimp only at h
          split at h
          · rename_i hbad
            obtain ⟨rfl, rfl⟩ := Prod.mk.inj h
            exact .refusedMask hstack hbad
          · rename_i hvalid
            obtain ⟨rfl, rfl⟩ := Prod.mk.inj h
            exact .masked hstack hvalid
  | blockAllSigs keep =>
      obtain ⟨rfl, rfl⟩ := Prod.mk.inj (Option.some.inj h)
      exact .blocked hstack
  | blockAppSigs keep =>
      obtain ⟨rfl, rfl⟩ := Prod.mk.inj (Option.some.inj h)
      exact .blocked hstack
  | restoreSigs set =>
      obtain ⟨rfl, rfl⟩ := Prod.mk.inj (Option.some.inj h)
      cases set with
      | none =>
          dsimp only
          rw [← hstack]
          exact .callRestoreNull hstack
      | some bits => exact .callRestore hstack
  | sigaction sig sa =>
      obtain ⟨rfl, rfl⟩ := Prod.mk.inj (Option.some.inj h)
      by_cases hgood : AppSig sig.toNat
      · have hcall : SigactionCall st.stack st.stack := by
          rw [hstack]
          exact .app
        exact sigaction_turn hcall hgood
      · have hbad : badSig sig = true := by
          by_contra hnot
          exact hgood ((badSig_eq_false_iff sig).mp (by simpa using hnot))
        unfold Signal.sigaction
        rw [if_pos hbad]
        exact .refusedAction hstack
  | wasiInitSignals dispositions =>
      cases dispositions with
      | none =>
          obtain ⟨rfl, rfl⟩ := Prod.mk.inj (Option.some.inj h)
          exact .refusedStart hstack
      | some dispositions =>
          obtain ⟨rfl, rfl⟩ := Prod.mk.inj (Option.some.inj h)
          exact .startUp hstack
  | handlerReturn =>
      simp only [AppOp.exec] at h
      split at h
      · cases h
      · rename_i hrest
        obtain ⟨rfl, rfl⟩ := Prod.mk.inj (Option.some.inj h)
        exact .handlerReturn hstack hrest

theorem wasmSignal_turn {sig : BitVec 32} {rest : List Frame} {st : Thread}
    (hstack : st.stack = .wasmSignal sig :: rest) :
    Turn st (wasmSignal sig rest st).1 (wasmSignal sig rest st).2 := by
  unfold wasmSignal
  cases hbad : badSig sig with
  | true =>
      refine .ignored hstack fun hgood => ?_
      rw [(badSig_eq_false_iff sig).mpr hgood] at hbad
      cases hbad
  | false =>
      have hgood := (badSig_eq_false_iff sig).mp hbad
      simp only [Bool.false_eq_true, ↓reduceIte]
      cases htest : sigsetTest st.sigmask sig.toNat with
      | true => exact .pended hstack hgood htest
      | false =>
          simp only [Bool.false_eq_true, ↓reduceIte]
          obtain ⟨hevent, hdispatch⟩ := dispatchSignal_dispatches sig.toNat false
            (.deliverPending :: .ret (.wasmSignal sig .dispatched) st.entry :: rest) st
          rw [hevent]
          exact .dispatched hstack hgood htest hdispatch

theorem libcTurn_turn {top : Frame} {rest : List Frame} {st st' : Thread} {e : Event}
    (hstack : st.stack = top :: rest) (h : libcTurn top rest st = some (e, st')) :
    Turn st e st' := by
  cases top with
  | app inv sections => cases h
  | wasmSignal sig =>
      have hturn := wasmSignal_turn hstack
      rw [Option.some.inj h] at hturn
      exact hturn
  | dispatchSignal sig =>
      obtain ⟨hevent, hdispatch⟩ := dispatchSignal_dispatches sig true rest st
      rw [Option.some.inj h] at hevent hdispatch
      obtain rfl : e = .dispatched (st.invocations + 1) sig (st.callbacks sig) := hevent
      exact .drained hstack hdispatch
  | dispatch inv sig drained saved =>
      obtain ⟨rfl, rfl⟩ := Prod.mk.inj (Option.some.inj h)
      exact .finished hstack
  | deliverPending =>
      simp only [libcTurn, sigDeliverPending, Option.some.injEq] at h
      cases hnext : nextPending st.sigpending st.sigmask with
      | none =>
          rw [hnext] at h
          obtain ⟨rfl, rfl⟩ := Prod.mk.inj h
          exact .idle hstack fun sig happ hpending => nextPending_eq_none hnext happ hpending
      | some sig =>
          rw [hnext] at h
          obtain ⟨rfl, rfl⟩ := Prod.mk.inj h
          obtain ⟨happ, hpending, hopen⟩ := nextPending_eq_some hnext
          exact .cleared hstack happ hpending hopen
  | restoreSigs set =>
      obtain ⟨rfl, rfl⟩ := Prod.mk.inj (Option.some.inj h)
      exact .restored hstack
  | libcSigaction sig sa set =>
      cases sa with
      | none =>
          obtain ⟨rfl, rfl⟩ := Prod.mk.inj (Option.some.inj h)
          exact .queriedAction hstack
      | some sa =>
          obtain ⟨rfl, rfl⟩ := Prod.mk.inj (Option.some.inj h)
          exact .installed hstack
  | initSignals dispositions =>
      obtain ⟨rfl, rfl⟩ := Prod.mk.inj (Option.some.inj h)
      cases dispositions with
      | nil => exact .started hstack
      | cons disposition more =>
          obtain ⟨sig, disp⟩ := disposition
          unfold wasiInitSignals
          dsimp only
          split
          · exact .exited hstack
          · rename_i hfine
            rw [not_or, Bool.not_eq_true] at hfine
            have hgood := (badSig_eq_false_iff _).mp hfine.2
            have hcall : SigactionCall st.stack (.initSignals more :: rest) := by
              rw [hstack]
              exact .init
            exact sigaction_turn hcall hgood
  | ret call entry =>
      obtain ⟨rfl, rfl⟩ := Prod.mk.inj (Option.some.inj h)
      exact .returned hstack

/-- One turn, whoever's choice it is. -/
def Step (st : Thread) (e : Event) (st' : Thread) : Prop := ∃ c, st.turn c = some (e, st')

/-- The inversion lemma of a turn. -/
theorem Step.turn {st st' : Thread} {e : Event} (h : Step st e st') :
    st.status = .running ∧ Turn st e st' := by
  obtain ⟨c, hc⟩ := h
  unfold Thread.turn at hc
  split at hc
  · rename_i hstatus
    refine ⟨hstatus, ?_⟩
    split at hc
    · rename_i sig top rest hstack
      split at hc
      · rename_i hready
        rw [Bool.and_eq_true] at hready
        obtain ⟨rfl, rfl⟩ := Prod.mk.inj (Option.some.inj hc)
        exact .delivered hstack hready.2 hready.1
      · cases hc
    · rename_i op inv sections rest hstack
      exact AppOp.exec_turn hstack hc
    · rename_i top rest hstack
      exact libcTurn_turn hstack hc
    · cases hc
  · cases hc

/-- Code that makes no call to the host is not interrupted. -/
theorem Step.libcTurn {st st' : Thread} {e : Event} {top : Frame} {rest : List Frame}
    (h : Step st e st') (hstack : st.stack = top :: rest) (htop : top.callsHost = false) :
    libcTurn top rest st = some (e, st') := by
  obtain ⟨c, hc⟩ := h
  unfold Thread.turn at hc
  rw [hstack] at hc
  split at hc
  · cases c with
    | deliver sig => simp [htop] at hc
    | app op => cases top <;> first | cases hc | cases htop
    | libc => exact hc
  · cases hc

theorem turn_app {st : Thread} {op : AppOp} {result : Event × Thread}
    (h : st.turn (.app op) = some result) : ∃ inv sections rest,
      st.stack = .app inv sections :: rest ∧ op.exec inv sections rest st = some result := by
  unfold Thread.turn at h
  split at h
  · cases hstack : st.stack with
    | nil => simp [hstack] at h
    | cons top rest =>
        rw [hstack] at h
        cases top with
        | app inv sections => exact ⟨inv, sections, rest, rfl, h⟩
        | _ => cases h
  · cases h

theorem step_of_libcTurn {st st' : Thread} {e : Event} {top : Frame} {rest : List Frame}
    (hstack : st.stack = top :: rest) (hstatus : st.status = .running)
    (h : libcTurn top rest st = some (e, st')) : Step st e st' := by
  refine ⟨.libc, ?_⟩
  unfold Thread.turn
  rwa [if_pos hstatus, hstack]

/-! Runs -/

/-- A thread before its first turn: only the main program runs, and no signal
is pending. -/
structure Start (st : Thread) : Prop where
  stack_eq : st.stack = [.app 0 []]
  sigpending_eq : st.sigpending = 0
  status_eq : st.status = .running
  invocations_eq : st.invocations = 0

/-- The thread of a program that has inherited no mask. -/
def Thread.init : Thread := { stack := [.app 0 []] }

theorem init_start : Start Thread.init := ⟨rfl, rfl, rfl, rfl⟩

def Thread.next (c : Choice) (st : Thread) : Thread := ((st.turn c).map Prod.snd).getD st

theorem step_next {c : Choice} {st : Thread} {e : Event}
    (h : (st.turn c).map Prod.fst = some e) : Step st e (st.next c) := by
  obtain ⟨⟨e', st'⟩, hturn, rfl⟩ := Option.map_eq_some_iff.mp h
  exact ⟨c, by simp [Thread.next, hturn]⟩

/-- The state the choices lead to; it stops at a choice that is not open. -/
def Thread.play : List Choice → Thread → Thread
  | [], st => st
  | c :: choices, st =>
      match st.turn c with
      | none => st
      | some (_, st) => st.play choices

/-- The events on the way. -/
def Thread.events : List Choice → Thread → List Event
  | [], _ => []
  | c :: choices, st =>
      match st.turn c with
      | none => []
      | some (e, st) => e :: st.events choices

theorem play_run (choices : List Choice) (st : Thread) :
    Run Step st (st.events choices) (st.play choices) := by
  induction choices generalizing st with
  | nil => exact .nil
  | cons c choices ih =>
      simp only [Thread.play, Thread.events]
      cases hturn : st.turn c with
      | none => exact .nil
      | some result =>
          have hfirst : Step st result.1 result.2 := ⟨c, hturn⟩
          simpa using (Run.single hfirst).append (ih result.2)

end Signal

end WasixLibc
