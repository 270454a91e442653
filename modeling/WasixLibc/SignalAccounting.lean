/-
What becomes of every delivery.

The trace of a run determines the pending bits and the dispositions.  A
delivery is answered by the next event, and so is the clearing of a pending
bit; nothing else answers.
-/
import Mathlib.Data.List.Chain
import WasixLibc.SignalReentrancy

namespace WasixLibc

namespace Signal

/-- The pending bit of `sig` after an event. -/
def Event.updatePending (sig : Nat) (pending : Bool) : Event → Bool
  | .pended s _ => pending || decide (sig = s)
  | .cleared s => pending && decide (sig ≠ s)
  | _ => pending

/-- The disposition of `sig` after an event. -/
def Event.updateDisposition (sig : Nat) (current : KSigaction) : Event → KSigaction
  | .installed s ksa => if sig = s then ksa else current
  | .dispatched _ s ksa =>
      if sig = s ∧ ksa.handler ≠ .sigDfl ∧ ksa.flags &&& SA_RESETHAND ≠ 0 then {} else current
  | _ => current

def pendingAfter (sig : Nat) (events : List Event) : Bool :=
  events.foldl (Event.updatePending sig) false

def dispositionAfter (sig : Nat) (ksa : KSigaction) (events : List Event) : KSigaction :=
  events.foldl (Event.updateDisposition sig) ksa

/-- A signal has been delivered or taken from the pending set, and is not yet
dealt with. -/
def Event.asks : Event → Bool
  | .delivered _ => true
  | .cleared _ => true
  | _ => false

def Event.answers : Event → Bool
  | .ignored _ => true
  | .pended .. => true
  | .dispatched .. => true
  | _ => false

/-- What may come right after an event. -/
def Event.Follows (last e : Event) : Prop :=
  match last with
  | .delivered sig =>
      ¬ AppSig sig.toNat ∧ e = .ignored sig ∨
      AppSig sig.toNat ∧ ((∃ already, e = .pended sig.toNat already) ∨
        ∃ inv ksa, e = .dispatched inv sig.toNat ksa)
  | .cleared sig => ∃ inv ksa, e = .dispatched inv sig ksa
  | _ => e.answers = false

/-! The state after an event -/

theorem Turn.updatePending {st st' : Thread} {e : Event} (h : Turn st e st') {sig : Nat}
    (happ : AppSig sig) :
    sigsetTest st'.sigpending sig = e.updatePending sig (sigsetTest st.sigpending sig) := by
  cases h with
  | pended _ hother _ => exact sigsetTest_add happ.1 hother.1 hother.2.1 _
  | cleared _ hother _ _ => exact sigsetTest_del happ.1 happ.2.1 hother.1 _
  | dispatched _ _ _ hdispatch | drained _ hdispatch =>
      rw [hdispatch.sigpending_eq]
      rfl
  | _ => rfl

theorem Dispatches.updateDisposition {other : Nat} {drained : Bool} {rest : List Frame}
    {st st' : Thread} (h : Dispatches other drained rest st st') (inv sig : Nat) :
    st'.callbacks sig =
      (Event.dispatched inv other (st.callbacks other)).updateDisposition sig
        (st.callbacks sig) := by
  have hevent : (Event.dispatched inv other (st.callbacks other)).updateDisposition sig
      (st.callbacks sig) = if sig = other ∧ (st.callbacks other).handler ≠ .sigDfl ∧
        (st.callbacks other).flags &&& SA_RESETHAND ≠ 0 then {} else st.callbacks sig := rfl
  rw [h.callbacks_eq, hevent]
  unfold resetHandler
  by_cases hreset : (st.callbacks other).handler ≠ .sigDfl ∧
      (st.callbacks other).flags &&& SA_RESETHAND ≠ 0
  · rw [if_pos hreset]
    by_cases hsig : sig = other
    · rw [if_pos ⟨hsig, hreset⟩]
      exact if_pos hsig
    · rw [if_neg fun hboth => hsig hboth.1]
      exact if_neg hsig
  · rw [if_neg hreset, if_neg fun hboth => hreset hboth.2]

theorem Turn.updateDisposition {st st' : Thread} {e : Event} (h : Turn st e st') (sig : Nat) :
    st'.callbacks sig = e.updateDisposition sig (st.callbacks sig) := by
  cases h with
  | dispatched _ _ _ hdispatch | drained _ hdispatch => exact hdispatch.updateDisposition _ sig
  | _ => rfl

/-! What comes next -/

/-- The frames that deal with a signal. -/
def Frame.isAsked : Frame → Bool
  | .wasmSignal _ => true
  | .dispatchSignal _ => true
  | _ => false

theorem Above.next_isAsked {f next : Frame} {rest : List Frame} (h : Above f (next :: rest)) :
    next.isAsked = false := by
  cases next with
  | wasmSignal _ | dispatchSignal _ =>
      cases f <;> simp [Above, Frame.isCaller, Frame.callsHost] at h
  | _ => rfl

/-- What an event leaves on top of the stack. -/
def Event.Leaves (e : Event) (st : Thread) : Prop :=
  match e with
  | .delivered sig => st.status = .running ∧ ∃ rest, st.stack = .wasmSignal sig :: rest
  | .cleared sig => st.status = .running ∧ ∃ rest, st.stack = .dispatchSignal sig :: rest
  | _ => ∀ top rest, st.stack = top :: rest → top.isAsked = false

theorem Step.leaves {st st' : Thread} {e : Event} (h : Step st e st')
    (hstacked : WellStacked st.stack) : e.Leaves st' := by
  obtain ⟨hstatus, hturn⟩ := h.turn
  have hbelow : ∀ {f : Frame} {below : List Frame}, st.stack = f :: below →
      ∀ top rest, below = top :: rest → top.isAsked = false := by
    rintro f _ hstack top rest rfl
    rw [hstack] at hstacked
    exact hstacked.1.next_isAsked
  have htop : ∀ {s : Thread} {f : Frame} {below : List Frame}, s.stack = f :: below →
      f.isAsked = false → ∀ top rest, s.stack = top :: rest → top.isAsked = false := by
    intro s f below hstack hf top rest hstack'
    obtain ⟨rfl, _⟩ := List.cons.inj (hstack.symm.trans hstack')
    exact hf
  cases hturn with
  | delivered _ _ _ => exact ⟨hstatus, _, rfl⟩
  | cleared _ _ _ _ => exact ⟨hstatus, _, rfl⟩
  | dispatched _ _ _ hdispatch | drained _ hdispatch =>
      rcases hdispatch.stack_cases with hstack | ⟨_, hstack⟩
      · exact htop hstack rfl
      · exact htop hstack rfl
  | finished hstack | idle hstack _ | returned hstack | started hstack | handlerReturn hstack _ =>
      exact hbelow hstack
  | ignored _ _ | pended _ _ _ | queriedMask _ | refusedMask _ _ | blocked _ | callRestore _
    | callRestoreNull _ | restored _ | refusedAction _ | action _ _ _ | actionAbort _ _
    | startUp _ => exact htop rfl rfl
  | masked _ _ =>
      unfold sigmaskFrames
      split
      · exact htop rfl rfl
      · exact htop rfl rfl
  | @installed _ _ set _ hstack | @queriedAction _ set _ hstack =>
      cases set with
      | none => exact hbelow hstack
      | some bits => exact htop rfl rfl
  | refusedStart hstack | exited hstack =>
      exact htop hstack rfl

/-- A turn that answers deals with the signal on top of the stack. -/
theorem Turn.answers_asked {st st' : Thread} {e : Event} (h : Turn st e st')
    (he : e.answers = true) : ∃ top rest, st.stack = top :: rest ∧ top.isAsked = true := by
  cases h with
  | ignored hstack _ | pended hstack _ _ | dispatched hstack _ _ _ | drained hstack _ =>
      exact ⟨_, _, hstack, rfl⟩
  | _ => cases he

theorem wasmSignal_follows (sig : BitVec 32) (rest : List Frame) (st : Thread) :
    (Event.delivered sig).Follows (wasmSignal sig rest st).1 := by
  unfold wasmSignal
  cases hbad : badSig sig with
  | true =>
      refine Or.inl ⟨fun happ => ?_, rfl⟩
      rw [(badSig_eq_false_iff sig).mpr happ] at hbad
      cases hbad
  | false =>
      have happ := (badSig_eq_false_iff sig).mp hbad
      simp only [Bool.false_eq_true, ↓reduceIte]
      cases htest : sigsetTest st.sigmask sig.toNat with
      | true => exact Or.inr ⟨happ, Or.inl ⟨_, rfl⟩⟩
      | false => exact Or.inr ⟨happ, Or.inr ⟨_, _, rfl⟩⟩

theorem Step.follows {st st' : Thread} {last e : Event} (hlast : last.Leaves st)
    (h : Step st e st') : last.Follows e := by
  have hother : (∀ top rest, st.stack = top :: rest → top.isAsked = false) →
      e.answers = false := by
    intro hnone
    by_contra hanswers
    obtain ⟨top, rest, hstack, hasked⟩ := h.turn.2.answers_asked (by simpa using hanswers)
    rw [hnone top rest hstack] at hasked
    cases hasked
  cases last with
  | delivered sig =>
      obtain ⟨_, rest, hstack⟩ := hlast
      have hresult := Option.some.inj (h.libcTurn hstack rfl)
      have hfollows := wasmSignal_follows sig rest st
      rwa [hresult] at hfollows
  | cleared sig =>
      obtain ⟨_, rest, hstack⟩ := hlast
      have hresult := Option.some.inj (h.libcTurn hstack rfl)
      obtain ⟨hevent, _⟩ := dispatchSignal_dispatches sig true rest st
      rw [hresult] at hevent
      exact ⟨_, _, hevent⟩
  | _ => exact hother hlast

/-- The thread can always go on with the signal it was asked to deal with. -/
theorem Event.Leaves.step {st : Thread} {last : Event} (h : last.Leaves st)
    (hasks : last.asks = true) : ∃ e st', Step st e st' := by
  cases last with
  | delivered _ | cleared _ =>
      obtain ⟨hstatus, rest, hstack⟩ := h
      exact ⟨_, _, step_of_libcTurn hstack hstatus rfl⟩
  | _ => cases hasks

/-! Runs -/

theorem Turn.pended_already {st st' : Thread} {sig : Nat} {already : Bool}
    (h : Turn st (.pended sig already) st') :
    AppSig sig ∧ already = sigsetTest st.sigpending sig := by
  cases h with
  | pended _ happ _ => exact ⟨happ, rfl⟩

theorem Turn.cleared_pending {st st' : Thread} {sig : Nat} (h : Turn st (.cleared sig) st') :
    sigsetTest st.sigpending sig = true := by
  cases h with
  | cleared _ _ hpending _ => exact hpending

/-- The step lemma of the balance. -/
theorem Turn.balanced {st st' : Thread} {e : Event} (h : Turn st e st') {sig : Nat}
    (happ : AppSig sig) :
    [e].count (.pended sig false) + (sigsetTest st.sigpending sig).toNat =
      [e].count (.cleared sig) + (sigsetTest st'.sigpending sig).toNat := by
  rw [h.updatePending happ]
  cases e with
  | pended other already =>
      obtain ⟨_, rfl⟩ := h.pended_already
      by_cases hsig : sig = other
      · subst hsig
        cases hbit : sigsetTest st.sigpending sig <;> simp [Event.updatePending]
      · simp [Event.updatePending, hsig, Ne.symm hsig]
  | cleared other =>
      by_cases hsig : sig = other
      · subst hsig
        simp [Event.updatePending, h.cleared_pending]
      · simp [Event.updatePending, hsig, Ne.symm hsig]
  | _ => simp [Event.updatePending]

/-- What a trace and the state it leads to say about the signals. -/
structure Accounted (start : Thread) (events : List Event) (st : Thread) : Prop where
  /-- Each delivery and each clearing is answered once, by the next event, and
  nothing else is. -/
  answered : (Event.internal :: events).IsChain Event.Follows
  /-- One that is last can be answered. -/
  answerable : ∀ last ∈ events.getLast?, last.asks = true → ∃ e st', Step st e st'
  pending : ∀ sig, AppSig sig → sigsetTest st.sigpending sig = pendingAfter sig events
  /-- A pending signal that is delivered again is pending once. -/
  coalesced : ∀ pre sig already post, events = pre ++ .pended sig already :: post →
    already = pendingAfter sig pre
  /-- What became pending is taken once, or still pending. -/
  balanced : ∀ sig, AppSig sig → events.count (.pended sig false) =
    events.count (.cleared sig) + (sigsetTest st.sigpending sig).toNat
  /-- Only application signals are dispatched, with the current disposition. -/
  current : ∀ pre inv sig ksa post, events = pre ++ .dispatched inv sig ksa :: post →
    AppSig sig ∧ ksa = dispositionAfter sig (start.callbacks sig) pre
  /-- After a handler with `SA_RESETHAND` comes the default action, unless
  another one is installed. -/
  once : ∀ pre inv inv' sig ksa ksa' mid post,
    events = pre ++ .dispatched inv sig ksa :: (mid ++ .dispatched inv' sig ksa' :: post) →
    ksa.handler ≠ .sigDfl → ksa.flags &&& SA_RESETHAND ≠ 0 →
    (∀ ksa, .installed sig ksa ∉ mid) → ksa'.handler = .sigDfl

theorem Start.leaves {st : Thread} (h : Start st) : Event.internal.Leaves st := by
  intro top rest hstack
  obtain ⟨rfl, _⟩ := List.cons.inj (h.stack_eq.symm.trans hstack)
  rfl

namespace AccountingWitness

/-- It is entered once. -/
def handler : Sigaction := ⟨.func false 1, SA_RESETHAND, 0⟩

/-- The handler of signal 10 is sent 10 twice; the default action follows. -/
def choices : List Choice :=
  [.app (.sigaction 10 (some handler)), .libc, .libc, .deliver 10, .libc,
    .deliver 10, .libc, .libc, .deliver 10, .libc, .libc, .app .handlerReturn, .libc, .libc,
    .libc]

def events : List Event :=
  [.internal, .installed 10 handler.toKernel, .returned (.sigaction 10 .ok) ⟨0, 0⟩,
    .delivered 10, .dispatched 1 10 handler.toKernel,
    .delivered 10, .pended 10 false, .returned (.wasmSignal 10 .pended) ⟨0x200, 0⟩,
    .delivered 10, .pended 10 true, .returned (.wasmSignal 10 .pended) ⟨0x200, 0x200⟩,
    .internal, .finished 1, .cleared 10, .dispatched 2 10 {}]

end AccountingWitness

end Signal

end WasixLibc
