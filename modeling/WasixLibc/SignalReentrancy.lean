/-
What cannot be dispatched while a handler runs.

The mask a handler runs with blocks its signal and its `sa_mask`.  A delivery
that starts inside saves a mask that blocks them still, and restores it at its
end, so only a call of `pthread_sigmask` or `__restore_sigs` unblocks them.
-/
import WasixLibc.SignalQuiescence

namespace WasixLibc

namespace Signal

/-- A call changes the mask so that `sig` is no longer blocked. -/
def Event.Unblocks (sig : Nat) : Event → Prop
  | .masked _ before after => sigsetTest before sig = true ∧ sigsetTest after sig = false
  | _ => False

/-- The frames of `dispatch_signal`. -/
def Frame.isDispatch : Frame → Bool
  | .dispatchSignal _ => true
  | .dispatch .. => true
  | _ => false

/-- Every delivery above invocation `inv` has saved a mask that blocks `sig`. -/
def Guarded (inv sig : Nat) : List Frame → Prop
  | [] => True
  | .dispatch inv' _ _ saved :: rest =>
      inv' = inv ∨ sigsetTest saved sig = true ∧ Guarded inv sig rest
  | _ :: rest => Guarded inv sig rest

theorem guarded_cons {inv sig : Nat} {f : Frame} (hf : f.isDispatch = false)
    (rest : List Frame) : Guarded inv sig (f :: rest) ↔ Guarded inv sig rest := by
  cases f <;> first | exact Iff.rfl | cases hf

theorem guarded_append {inv sig : Nat} {frames : List Frame}
    (hframes : ∀ f ∈ frames, f.isDispatch = false) (rest : List Frame) :
    Guarded inv sig (frames ++ rest) ↔ Guarded inv sig rest := by
  induction frames with
  | nil => exact Iff.rfl
  | cons f frames ih =>
      rw [List.cons_append, guarded_cons (hframes f (by simp))]
      exact ih fun g hg => hframes g (List.mem_cons_of_mem _ hg)

/-- Invocation `inv` has started and nothing has unblocked `sig` since. -/
structure GuardInv (inv sig : Nat) (st : Thread) : Prop where
  blocked : sigsetTest st.sigmask sig = true
  guarded : Guarded inv sig st.stack
  undispatched : .dispatchSignal sig ∉ st.stack
  started : inv ≤ st.invocations

/-- A turn that neither starts nor ends a delivery. -/
theorem GuardInv.of_frames {inv sig : Nat} {st st' : Thread} {rest : List Frame}
    (old new : List Frame) (hinv : GuardInv inv sig st) (hstack : st.stack = old ++ rest)
    (hold : ∀ f ∈ old, f.isDispatch = false) (hstack' : st'.stack = new ++ rest)
    (hnew : ∀ f ∈ new, f.isDispatch = false) (hmask : sigsetTest st'.sigmask sig = true)
    (hcount : st'.invocations = st.invocations) : GuardInv inv sig st' := by
  have hguarded := hinv.guarded
  have hnot := hinv.undispatched
  rw [hstack] at hguarded hnot
  refine ⟨hmask, ?_, ?_, hcount ▸ hinv.started⟩
  · rw [hstack', guarded_append hnew]
    exact (guarded_append hold rest).mp hguarded
  · rw [hstack']
    intro hmem
    rcases List.mem_append.mp hmem with hmem | hmem
    · cases hnew _ hmem
    · exact hnot (List.mem_append_right _ hmem)

/-- A delivery inside of the invocation saves a mask that blocks the signal. -/
theorem Dispatches.guardInv {inv sig other : Nat} {drained : Bool} {below : List Frame}
    {st st' : Thread} (h : Dispatches other drained below st st') (happ : AppSig sig)
    (hinv : GuardInv inv sig st) (hbelow : Guarded inv sig below)
    (hnot : .dispatchSignal sig ∉ below) : GuardInv inv sig st' := by
  have hguarded : Guarded inv sig
      (.dispatch (st.invocations + 1) other drained st.sigmask :: below) :=
    Or.inr ⟨hinv.blocked, hbelow⟩
  have hstarted := hinv.started
  refine ⟨h.maskLe sig happ hinv.blocked, ?_, ?_, ?_⟩
  · rcases h.stack_cases with hstack | ⟨_, hstack⟩
    · rwa [hstack]
    · rwa [hstack, guarded_cons rfl]
  · rcases h.stack_cases with hstack | ⟨_, hstack⟩ <;> simp [hstack, hnot]
  · rw [h.invocations_eq]
    omega

/-- What `dispatch_signal` blocks for its own invocation. -/
theorem Dispatches.starts_guardInv {sig other : Nat} {drained : Bool} {below : List Frame}
    {st st' : Thread} (h : Dispatches sig drained below st st') (happ : AppSig other)
    (hhandler : (st.callbacks sig).handler ≠ .sigDfl)
    (hblocked : other = sig ∧ (st.callbacks sig).flags &&& SA_NODEFER = 0 ∨
      sigsetTest (st.callbacks sig).mask other = true)
    (hnot : .dispatchSignal other ∉ below) :
    GuardInv (st.invocations + 1) other st' := by
  refine ⟨?_, ?_, ?_, Nat.le_of_eq h.invocations_eq.symm⟩
  · rw [h.sigmask_eq]
    simp only [handlerMask, hhandler, ↓reduceIte]
    rcases hblocked with ⟨rfl, hflag⟩ | hmask
    · rw [if_pos hflag, sigsetTest_add happ.1 happ.1 happ.2.1]
      simp
    · split
      · exact sigsetTest_add_of (by simp [hmask]) sig
      · simp [hmask]
  · rcases h.stack_cases with hstack | ⟨_, hstack⟩
    · rw [hstack]
      exact Or.inl rfl
    · rw [hstack, guarded_cons rfl]
      exact Or.inl rfl
  · rcases h.stack_cases with hstack | ⟨_, hstack⟩ <;> simp [hstack, hnot]

theorem section_isDispatch {set : Option Sigset} {f : Frame}
    (h : f ∈ (set.map Frame.restoreSigs).toList) : f.isDispatch = false := by
  cases set with
  | none => simp at h
  | some bits =>
      obtain rfl : f = .restoreSigs bits := by simpa using h
      rfl

/-- `sigaction` is called by a frame that starts and ends no delivery. -/
theorem SigactionCall.cons {stack below : List Frame} (h : SigactionCall stack below) :
    ∃ top top' rest, stack = top :: rest ∧ below = top' :: rest ∧
      top.isDispatch = false ∧ top'.isDispatch = false := by
  cases h with
  | app => exact ⟨_, _, _, rfl, rfl, rfl, rfl⟩
  | init => exact ⟨_, _, _, rfl, rfl, rfl, rfl⟩

theorem not_unblocks {fn : MaskFn} {before after : Sigset} {sig : Nat}
    (h : ¬ (Event.masked fn before after).Unblocks sig) (hblocked : sigsetTest before sig = true) :
    sigsetTest after sig = true := by
  by_contra hopen
  exact h ⟨hblocked, by simpa using hopen⟩

/-- The step lemma. -/
theorem Turn.guardInv {inv sig : Nat} {st st' : Thread} {e : Event} (h : Turn st e st')
    (happ : AppSig sig) (hinv : GuardInv inv sig st) (hactive : e ≠ .finished inv)
    (hkeeps : ¬ e.Unblocks sig) : GuardInv inv sig st' := by
  have hblocked := hinv.blocked
  have hguarded := hinv.guarded
  have hnot := hinv.undispatched
  have hpush : ∀ {st' : Thread} (new : List Frame), st'.stack = new ++ st.stack →
      (∀ f ∈ new, f.isDispatch = false) → sigsetTest st'.sigmask sig = true →
      st'.invocations = st.invocations → GuardInv inv sig st' := by
    exact fun new hstack' hnew => hinv.of_frames [] new rfl (by simp) hstack' hnew
  cases h with
  | delivered hstack _ _ =>
      exact hpush [_] (by rw [hstack]; rfl) (by simp [Frame.isDispatch]) hblocked rfl
  | ignored hstack _ | pended hstack _ _ =>
      exact hinv.of_frames [_] [_] hstack (by simp [Frame.isDispatch]) rfl
        (by simp [Frame.isDispatch]) hblocked rfl
  | dispatched hstack _ _ hdispatch =>
      rw [hstack] at hguarded hnot
      exact hdispatch.guardInv happ hinv hguarded (by simpa using hnot)
  | drained hstack hdispatch =>
      rw [hstack] at hguarded hnot
      refine hdispatch.guardInv happ hinv hguarded ?_
      exact fun hmem => hnot (List.mem_cons_of_mem _ hmem)
  | finished hstack =>
      rw [hstack] at hguarded hnot
      rcases hguarded with rfl | ⟨hsaved, hrest⟩
      · exact absurd rfl hactive
      · exact ⟨hsaved, hrest, fun hmem => hnot (List.mem_cons_of_mem _ hmem), hinv.started⟩
  | @cleared other rest hstack _ _ hopen =>
      rw [hstack] at hguarded hnot
      refine ⟨hblocked, hguarded, ?_, hinv.started⟩
      intro hmem
      rcases List.mem_cons.mp hmem with hother | hmem
      · obtain rfl := Frame.dispatchSignal.inj hother
        rw [hblocked] at hopen
        cases hopen
      · exact hnot hmem
  | idle hstack _ | returned hstack | started hstack | handlerReturn hstack _ =>
      exact hinv.of_frames [_] [] hstack (by simp [Frame.isDispatch]) rfl (by simp) hblocked rfl
  | masked hstack _ =>
      refine hpush (sigmaskFrames _ _) rfl ?_ (not_unblocks hkeeps hblocked) rfl
      unfold sigmaskFrames
      split <;> simp [Frame.isDispatch]
  | queriedMask hstack | refusedMask hstack _ | refusedAction hstack | startUp hstack =>
      exact hpush [_] rfl (by simp [Frame.isDispatch]) hblocked rfl
  | blocked hstack =>
      exact hinv.of_frames [_] [_] hstack (by simp [Frame.isDispatch]) rfl
        (by simp [Frame.isDispatch]) (maskLe_or _ _ sig happ hblocked) rfl
  | callRestore hstack =>
      exact hinv.of_frames [_] [_, _] hstack (by simp [Frame.isDispatch]) rfl
        (by simp [Frame.isDispatch]) hblocked rfl
  | callRestoreNull hstack =>
      exact hpush [_, _] rfl (by simp [Frame.isDispatch]) hblocked rfl
  | restored hstack =>
      exact hinv.of_frames [_] [_, _] hstack (by simp [Frame.isDispatch]) rfl
        (by simp [Frame.isDispatch]) (not_unblocks hkeeps hblocked) rfl
  | action hcall _ _ =>
      obtain ⟨top, top', rest, hstack, rfl, htop, htop'⟩ := hcall.cons
      exact hinv.of_frames [top] [_, _, top'] hstack (by simpa using htop) rfl
        (by simpa [Frame.isDispatch] using htop') hblocked rfl
  | actionAbort hcall _ =>
      obtain ⟨top, top', rest, hstack, rfl, htop, htop'⟩ := hcall.cons
      exact hinv.of_frames [top] [_, _, top'] hstack (by simpa using htop) rfl
        (by simpa [Frame.isDispatch] using htop') (maskLe_or _ _ sig happ hblocked) rfl
  | installed hstack | queriedAction hstack =>
      exact hinv.of_frames [_] _ hstack (by simp [Frame.isDispatch]) rfl
        (fun _ hf => section_isDispatch hf) hblocked rfl
  | refusedStart _ | exited _ => exact ⟨hblocked, hguarded, hnot, hinv.started⟩

theorem run_guardInv {start st : Thread} {mid : List Event} {inv sig : Nat}
    (hrun : Run Step start mid st) (happ : AppSig sig) (hstart : GuardInv inv sig start)
    (hactive : .finished inv ∉ mid) (hkeeps : ∀ e ∈ mid, ¬ e.Unblocks sig) :
    GuardInv inv sig st := by
  induction hrun with
  | nil => exact hstart
  | @snoc labels s t l _ hstep ih =>
      have hinv := ih (fun hmem => hactive (List.mem_append_left _ hmem))
        fun e he => hkeeps e (List.mem_append_left _ he)
      refine hstep.turn.2.guardInv happ hinv ?_ (hkeeps l (by simp))
      rintro rfl
      exact hactive (by simp)

theorem Turn.dispatched_appSig {st st' : Thread} {inv sig : Nat} {ksa : KSigaction}
    (h : Turn st (.dispatched inv sig ksa) st') (hstacked : WellStacked st.stack) :
    AppSig sig := by
  cases h with
  | dispatched _ happ _ _ => exact happ
  | drained hstack _ =>
      rw [hstack] at hstacked
      exact hstacked.1.1

/-- The turn in which an invocation starts. -/
theorem Turn.starts_guardInv {st st' : Thread} {inv sig other : Nat} {ksa : KSigaction}
    (h : Turn st (.dispatched inv sig ksa) st') (hstacked : WellStacked st.stack)
    (happ : AppSig other) (hhandler : ksa.handler ≠ .sigDfl)
    (hblocked : other = sig ∧ ksa.flags &&& SA_NODEFER = 0 ∨
      sigsetTest ksa.mask other = true) : GuardInv inv other st' := by
  cases h with
  | @dispatched call rest _ hstack _ _ hdispatch =>
      rw [hstack] at hstacked
      refine hdispatch.starts_guardInv happ hhandler hblocked ?_
      simpa using hstacked.dispatchSignal_not_mem other
  | drained hstack hdispatch =>
      rw [hstack] at hstacked
      exact hdispatch.starts_guardInv happ hhandler hblocked
        (hstacked.dispatchSignal_not_mem other)

/-- Nothing that is blocked is dispatched. -/
theorem Turn.not_dispatched {st st' : Thread} {inv inv' sig : Nat} {ksa : KSigaction}
    (hinv : GuardInv inv sig st) : ¬ Turn st (.dispatched inv' sig ksa) st' := by
  intro h
  cases h with
  | dispatched _ _ hopen _ =>
      rw [hinv.blocked] at hopen
      cases hopen
  | drained hstack _ => exact hinv.undispatched (by simp [hstack])

/-- While an invocation is active that blocks `other`, as its own signal or by
its `sa_mask`, and no call has unblocked it, `other` is not dispatched and a
delivery of it is deferred.  The end of the invocation returns to the loop of
`__sig_deliver_pending`, which takes up what was deferred. -/
theorem run_nonreentrant {start st st' : Thread} {pre mid : List Event} {e : Event}
    {inv sig other : Nat} {ksa : KSigaction} (hstart : Start start)
    (hrun : Run Step start (pre ++ .dispatched inv sig ksa :: mid) st) (hstep : Step st e st')
    (hhandler : ksa.handler ≠ .sigDfl)
    (hblocked : other = sig ∧ ksa.flags &&& SA_NODEFER = 0 ∨
      sigsetTest ksa.mask other = true)
    (hactive : .finished inv ∉ mid) (hkeeps : ∀ e ∈ mid, ¬ e.Unblocks other) :
    (∀ inv' ksa', e ≠ .dispatched inv' other ksa') ∧
      (∀ call rest, st.stack = .wasmSignal call :: rest → call.toNat = other →
        AppSig other → ∃ already, e = .pended other already) ∧
      (e = .finished inv → ∃ rest, st'.stack = .deliverPending :: rest) := by
  have hstacked := (run_quietInv hstart hrun).stacked
  have hturn := hstep.turn.2
  have hguard : AppSig other → GuardInv inv other st := by
    intro happ
    obtain ⟨s, t, hpre, hdispatched, hmid⟩ := hrun.split_cons
    have hbefore := (run_quietInv hstart hpre).stacked
    have hbegun := hdispatched.turn.2.starts_guardInv hbefore happ hhandler hblocked
    exact run_guardInv hmid happ hbegun hactive hkeeps
  refine ⟨?_, ?_, ?_⟩
  · rintro inv' ksa' rfl
    exact Turn.not_dispatched (hguard (hturn.dispatched_appSig hstacked)) hturn
  · intro call rest hstack hcall happ
    subst hcall
    have hmask := (hguard happ).blocked
    have hgood := (badSig_eq_false_iff call).mpr happ
    have hresult := hstep.libcTurn hstack rfl
    simp only [libcTurn, wasmSignal, hgood, hmask, Bool.false_eq_true, ↓reduceIte,
      Option.some.injEq] at hresult
    exact ⟨_, (Prod.mk.inj hresult).1.symm⟩
  · rintro rfl
    cases hturn with
    | finished hstack =>
        rw [hstack] at hstacked
        obtain ⟨⟨below, rfl⟩, _⟩ := hstacked
        exact ⟨below, rfl⟩

namespace ReentrancyWitness

def handler : Sigaction := ⟨.func false 1, 0, 0x800⟩

/-- The handler of signal 10, with 12 in its `sa_mask`, is sent both and
returns. -/
def choices : List Choice :=
  [.app (.sigaction 10 (some handler)), .libc, .libc, .deliver 10, .libc,
    .deliver 10, .libc, .libc, .deliver 12, .libc, .libc, .app .handlerReturn]

def st : Thread := Thread.init.play choices

def beforeHandler : List Event :=
  [.internal, .installed 10 handler.toKernel, .returned (.sigaction 10 .ok) ⟨0, 0⟩,
    .delivered 10]

def inHandler : List Event :=
  [.delivered 10, .pended 10 false, .returned (.wasmSignal 10 .pended) ⟨0xa00, 0⟩,
    .delivered 12, .pended 12 false, .returned (.wasmSignal 12 .pended) ⟨0xa00, 0x200⟩,
    .internal]

theorem st_run : Run Step Thread.init
    (beforeHandler ++ .dispatched 1 10 handler.toKernel :: inHandler) st := by
  have hevents : Thread.init.events choices =
      beforeHandler ++ .dispatched 1 10 handler.toKernel :: inHandler := by decide +kernel
  rw [← hevents]
  exact play_run choices Thread.init

theorem inHandler_keeps (sig : Nat) : ∀ e ∈ inHandler, ¬ e.Unblocks sig := by
  simp [inHandler, Event.Unblocks]

/-- Signal 12 is pending at the end of the handler, for the loop to take. -/
theorem st_deferred : sigsetTest st.sigpending 12 = true ∧
    ∃ rest, (st.next .libc).stack = .deliverPending :: rest := by
  refine ⟨by decide +kernel, ?_⟩
  have hstep : Step st (.finished 1) (st.next .libc) := step_next (by decide +kernel)
  obtain ⟨_, _, hloop⟩ := run_nonreentrant init_start st_run hstep (by decide)
    (Or.inr (by decide)) (by decide) (inHandler_keeps 12)
  exact hloop rfl

end ReentrancyWitness

end Signal

end WasixLibc
