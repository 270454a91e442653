/-
When a default action is taken.

`sigaction` sets `default_handler`, and start-up calls it once for each
inherited disposition; the callback is registered without it when there are
none.  `__default_handler` knows the signals up to `SIGSYS`.
-/
import WasixLibc.SignalReentrancy

namespace WasixLibc

namespace Signal

/-- `sigaction` has returned. -/
def Event.endsSigaction : Event → Bool
  | .returned call _ => call.isSigaction
  | _ => false

/-- `sigaction` has been called and has not returned. -/
def Frame.inSigaction : Frame → Bool
  | .ret call _ => call.isSigaction
  | _ => false

/-- The application or start-up has called `sigaction`, even if in vain. -/
def CalledSigaction (events : List Event) (st : Thread) : Bool :=
  events.any Event.endsSigaction || st.stack.any Frame.inSigaction

theorem Dispatches.inSigaction {sig : Nat} {drained : Bool} {rest : List Frame}
    {st st' : Thread} (h : Dispatches sig drained rest st st') :
    st'.stack.any Frame.inSigaction = rest.any Frame.inSigaction := by
  rcases h.stack_cases with hstack | ⟨_, hstack⟩
  · rw [hstack]
    rfl
  · rw [hstack]
    rfl

theorem section_inSigaction (set : Option Sigset) (rest : List Frame) :
    ((set.map Frame.restoreSigs).toList ++ rest).any Frame.inSigaction =
      rest.any Frame.inSigaction := by
  cases set with
  | none | some => rfl

/-- A turn that calls `sigaction` sets `default_handler`, and no other does. -/
theorem Turn.calls_sigaction {st st' : Thread} {e : Event} (h : Turn st e st') :
    ∃ calls, st'.hasDefault = (st.hasDefault || calls) ∧
      (e.endsSigaction || st'.stack.any Frame.inSigaction) =
        (st.stack.any Frame.inSigaction || calls) := by
  cases h with
  | refusedAction _ => exact ⟨true, by simp, by simp [Frame.inSigaction, LibcCall.isSigaction]⟩
  | action _ _ _ | actionAbort _ _ =>
      exact ⟨true, by simp, by simp [Frame.inSigaction, LibcCall.isSigaction]⟩
  | dispatched hstack _ _ hdispatch | drained hstack hdispatch =>
      refine ⟨false, by simp [hdispatch.hasDefault_eq], ?_⟩
      rw [hdispatch.inSigaction, hstack]
      simp [Event.endsSigaction, Frame.inSigaction, LibcCall.isSigaction]
  | installed hstack | queriedAction hstack =>
      refine ⟨false, by simp, ?_⟩
      rw [section_inSigaction, hstack]
      simp [Event.endsSigaction, Frame.inSigaction]
  | masked hstack _ =>
      refine ⟨false, by simp, ?_⟩
      unfold sigmaskFrames
      split <;> simp [Event.endsSigaction, Frame.inSigaction, LibcCall.isSigaction]
  | delivered hstack _ _ | ignored hstack _ | pended hstack _ _ | finished hstack
    | cleared hstack _ _ _ | idle hstack _ | returned hstack | queriedMask hstack
    | refusedMask hstack _ | blocked hstack | callRestore hstack | callRestoreNull hstack
    | restored hstack | startUp hstack | started hstack | refusedStart hstack | exited hstack
    | handlerReturn hstack _ =>
      refine ⟨false, by simp, ?_⟩
      simp [hstack, Event.endsSigaction, Frame.inSigaction, LibcCall.isSigaction]

theorem run_hasDefault {st : Thread} {events : List Event}
    (hrun : Run Step Thread.init events st) : st.hasDefault = CalledSigaction events st := by
  refine hrun.preserves_trace (fun ih hstep => ?_) rfl
  obtain ⟨calls, hdefault, hcalled⟩ := hstep.turn.2.calls_sigaction
  rw [hdefault, ih]
  simp only [CalledSigaction, List.any_append, List.any_cons, List.any_nil, Bool.or_false,
    Bool.or_assoc] at hcalled ⊢
  rw [hcalled]

/-! The action -/

/-- What a default action does: it returns, for a signal that is ignored or
continues, and ends the program for the others. -/
def DefaultActs (inv sig : Nat) (st : Thread) : Prop :=
  if sig ∈ [SIGCHLD, SIGCONT, SIGURG, SIGWINCH] then ∃ st', Step st (.finished inv) st'
  else st.status = .aborted

theorem defaultAction_aborts {sig : Nat} (hlow : 1 ≤ sig) (hhigh : sig ≤ SIGSYS) :
    (defaultAction sig).any DefaultAction.aborts =
      decide (sig ∉ [SIGCHLD, SIGCONT, SIGURG, SIGWINCH]) := by
  have hall : ∀ n < 32, 1 ≤ n → (defaultAction n).any DefaultAction.aborts =
      decide (n ∉ [SIGCHLD, SIGCONT, SIGURG, SIGWINCH]) := by decide
  have hlt : sig < 32 := by
    have hsys : sig ≤ 31 := hhigh
    omega
  exact hall sig hlt hlow

/-- `__default_handler` has no case for the signals above `SIGSYS`. -/
theorem defaultAction_eq_none {sig : Nat} (h : SIGSYS < sig) : defaultAction sig = none := by
  have hnot : ∀ {sigs : List Nat}, (∀ s ∈ sigs, s ≤ SIGSYS) → sig ∉ sigs :=
    fun hall hmem => absurd (hall sig hmem) (Nat.not_le.mpr h)
  have hcont : sig ≠ SIGCONT := by
    rintro rfl
    exact absurd h (by decide)
  unfold defaultAction
  rw [if_neg (hnot (by decide)), if_neg (hnot (by decide)), if_neg hcont,
    if_neg (hnot (by decide)), if_neg (hnot (by decide))]

theorem Turn.dispatched_default {st st' : Thread} {inv sig : Nat} {ksa : KSigaction}
    (h : Turn st (.dispatched inv sig ksa) st') (hdfl : ksa.handler = .sigDfl) :
    (∃ drained saved rest, st'.stack = .dispatch inv sig drained saved :: rest) ∧
      st'.status = (callDefault sig st).status := by
  have hdispatch : ∃ drained rest, inv = st.invocations + 1 ∧ ksa = st.callbacks sig ∧
      Dispatches sig drained rest st st' := by
    cases h with
    | dispatched _ _ _ hdispatch | drained _ hdispatch => exact ⟨_, _, rfl, rfl, hdispatch⟩
  obtain ⟨drained, rest, rfl, rfl, hdispatch⟩ := hdispatch
  refine ⟨?_, hdispatch.default_status hdfl⟩
  rcases hdispatch.stack_cases with hstack | ⟨⟨info, id, hfunc⟩, _⟩
  · exact ⟨_, _, _, hstack⟩
  · rw [hdfl] at hfunc
    cases hfunc

/-- The action is right for a signal `__default_handler` knows, if it is
called at all. -/
theorem defaultActs_iff {st st' : Thread} {inv sig : Nat} {drained : Bool} {saved : Sigset}
    {rest : List Frame} (happ : AppSig sig) (hrunning : st.status = .running)
    (hstack : st'.stack = .dispatch inv sig drained saved :: rest)
    (hstatus : st'.status = (callDefault sig st).status) :
    DefaultActs inv sig st' ↔ st.hasDefault = true ∧ sig ≤ SIGSYS := by
  have hreturns : st'.status = .running → ∃ st'', Step st' (.finished inv) st'' :=
    fun hgoes => ⟨_, step_of_libcTurn hstack hgoes rfl⟩
  have hends : ∀ st'', Step st' (.finished inv) st'' → st'.status = .running :=
    fun st'' hstep => hstep.turn.1
  unfold callDefault at hstatus
  cases hdefault : st.hasDefault with
  | false =>
      simp only [hdefault, Bool.false_eq_true, ↓reduceIte] at hstatus
      simp only [DefaultActs, hstatus, Bool.false_eq_true, false_and, iff_false]
      split
      · rintro ⟨st'', hstep⟩
        rw [hends st'' hstep] at hstatus
        cases hstatus
      · simp
  | true =>
      simp only [hdefault, ↓reduceIte] at hstatus
      rcases Nat.lt_or_ge SIGSYS sig with hhigh | hlow
      · -- no case of the switch, so the signal is ignored
        rw [defaultAction_eq_none hhigh] at hstatus
        have hlist : sig ∉ [SIGCHLD, SIGCONT, SIGURG, SIGWINCH] := by
          intro hmem
          have hall : ∀ s ∈ [SIGCHLD, SIGCONT, SIGURG, SIGWINCH], s ≤ SIGSYS := by decide
          exact absurd (hall sig hmem) (Nat.not_le.mpr hhigh)
        simp only [DefaultActs, if_neg hlist, true_and, Nat.not_le.mpr hhigh, iff_false]
        rw [hstatus]
        simp [hrunning]
      · rw [defaultAction_aborts happ.1 hlow] at hstatus
        simp only [DefaultActs, hlow, and_self, iff_true]
        by_cases hlist : sig ∈ [SIGCHLD, SIGCONT, SIGURG, SIGWINCH]
        · rw [if_pos hlist]
          refine hreturns ?_
          rw [hstatus, if_neg (by simpa only [decide_eq_true_eq, not_not] using hlist), hrunning]
        · rw [if_neg hlist, hstatus, if_pos (decide_eq_true hlist)]

theorem wasmSignal_of_open {st : Thread} {sig : BitVec 32} (happ : AppSig sig.toNat)
    (hopen : sigsetTest st.sigmask sig.toNat = false) (rest : List Frame) :
    wasmSignal sig rest st = dispatchSignal sig.toNat false
      (.deliverPending :: .ret (.wasmSignal sig .dispatched) st.entry :: rest) st := by
  have hgood := (badSig_eq_false_iff sig).mpr happ
  simp only [wasmSignal, hgood, hopen, Bool.false_eq_true, ↓reduceIte]

theorem delivered_dispatched {st st' : Thread} {sig : BitVec 32}
    (hstep : Step st (.delivered sig) st') (happ : AppSig sig.toNat)
    (hopen : sigsetTest st.sigmask sig.toNat = false) :
    ∃ st'', Step st' (.dispatched (st.invocations + 1) sig.toNat (st.callbacks sig.toNat))
      st'' := by
  obtain ⟨hstatus, hturn⟩ := hstep.turn
  cases hturn with
  | @delivered _ top rest hstack _ _ =>
      exact ⟨_, step_of_libcTurn rfl hstatus
        (congrArg some (wasmSignal_of_open happ hopen (top :: rest)))⟩

/-- A delivery of an unblocked signal is dispatched at once.  When the default
action of a signal is called, it acts exactly if `sigaction` has been called
before and the signal is not above `SIGSYS`. -/
theorem run_default_iff {events : List Event} {st : Thread}
    (hrun : Run Step Thread.init events st) :
    (∀ call st', Step st (.delivered call) st' → AppSig call.toNat →
      sigsetTest st.sigmask call.toNat = false →
      ∃ st'', Step st' (.dispatched (st.invocations + 1) call.toNat
        (st.callbacks call.toNat)) st'') ∧
    ∀ inv sig ksa st', Step st (.dispatched inv sig ksa) st' → ksa.handler = .sigDfl →
      (DefaultActs inv sig st' ↔ CalledSigaction events st = true ∧ sig ≤ SIGSYS) := by
  constructor
  · intro call st' hstep happ hopen
    exact delivered_dispatched hstep happ hopen
  · intro inv sig ksa st' hstep hdfl
    obtain ⟨hrunning, hturn⟩ := hstep.turn
    have happ := hturn.dispatched_appSig (run_quietInv init_start hrun).stacked
    obtain ⟨⟨drained, saved, rest, hstack⟩, hstatus⟩ := hturn.dispatched_default hdfl
    rw [defaultActs_iff happ hrunning hstack hstatus, run_hasDefault hrun]

namespace DefaultWitness

/-- Start-up without inherited dispositions, and `SIGCHLD`. -/
def bare : List Choice := [.app (.wasiInitSignals (some [])), .libc, .deliver 17]

/-- `default_handler` is null: the thread traps. -/
theorem bare_traps :
    ¬ ∀ (events : List Event) (st : Thread) (inv sig : Nat) (ksa : KSigaction) (st' : Thread),
      Run Step Thread.init events st → Step st (.dispatched inv sig ksa) st' →
      ksa.handler = .sigDfl → DefaultActs inv sig st' := by
  intro h
  have hstep : Step (Thread.init.play bare) (.dispatched 1 17 {})
      ((Thread.init.play bare).next .libc) := step_next (by decide +kernel)
  obtain ⟨st'', hfinished⟩ := h _ _ _ _ _ _ (play_run bare Thread.init) hstep rfl
  have hstatus := hfinished.turn.1
  revert hstatus
  decide +kernel

/-- Start-up with an inherited disposition, and `SIGCHLD`. -/
def inherited : List Choice :=
  [.app (.wasiInitSignals (some [(2, 1)])), .libc, .libc, .libc, .libc, .deliver 17]

theorem inherited_acts : DefaultActs 1 17 ((Thread.init.play inherited).next .libc) := by
  have hstep : Step (Thread.init.play inherited) (.dispatched 1 17 {})
      ((Thread.init.play inherited).next .libc) := step_next (by decide +kernel)
  have hrun := play_run inherited Thread.init
  refine ((run_default_iff hrun).2 _ _ _ _ hstep rfl).mpr ⟨?_, by decide⟩
  decide +kernel

end DefaultWitness

end Signal

end WasixLibc
