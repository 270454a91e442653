/-
When a signal may be pending and unblocked.

Every delivery ends in `__sig_deliver_pending`, which returns when nothing is
left to deliver; what runs outside of it was called in a quiescent state and
only makes the mask larger.  The exception is a handler that the loop itself
has started: the signals the loop has not reached yet stay pending there.
-/
import WasixLibc.SignalStep

namespace WasixLibc

namespace Signal

/-! The shape of the stack -/

/-- The calls that end in `__sig_deliver_pending`. -/
def LibcCall.drains : LibcCall → Bool
  | .wasmSignal _ .dispatched => true
  | .pthreadSigmask how (some _) .ok _ => decide (how ≠ SIG_BLOCK)
  | .restoreSigs _ => true
  | _ => false

def LibcCall.isSigaction : LibcCall → Bool
  | .sigaction .. => true
  | _ => false

/-- A delivery that is not over: its mask is not yet the mask of its caller. -/
def Frame.inDelivery : Frame → Bool
  | .dispatchSignal _ => true
  | .dispatch .. => true
  | .deliverPending => true
  | _ => false

/-- What a libc function other than the delivery path returns to. -/
def Frame.isCaller : Frame → Bool
  | .app .. => true
  | .libcSigaction .. => true
  | .initSignals _ => true
  | .ret call _ => call.isSigaction
  | _ => false

/-- A handler that `__sig_deliver_pending` has started. -/
def Frame.isDrained : Frame → Bool
  | .dispatch _ _ drained _ => drained
  | _ => false

/-- What a frame returns to. -/
def Above : Frame → List Frame → Prop
  | .app .., rest => rest = [] ∨ ∃ inv sig drained saved below,
      rest = .dispatch inv sig drained saved :: below
  | .dispatchSignal sig, rest => AppSig sig ∧ ∃ below, rest = .deliverPending :: below
  | .dispatch .., rest => ∃ below, rest = .deliverPending :: below
  | .deliverPending, rest => ∃ call entry below, rest = .ret call entry :: below ∧
      call.drains = true
  | .wasmSignal _, rest => ∃ top below, rest = top :: below ∧ top.callsHost = true
  | .libcSigaction .., rest => ∃ sig result entry below,
      rest = .ret (.sigaction sig result) entry :: below
  | .restoreSigs _, rest => ∃ top below, rest = top :: below ∧ top.isCaller = true
  | .ret .., rest => ∃ top below, rest = top :: below ∧ top.isCaller = true
  | .initSignals _, rest => ∃ inv sections below, rest = .app inv sections :: below

def WellStacked : List Frame → Prop
  | [] => True
  | top :: rest => Above top rest ∧ WellStacked rest

theorem Frame.isCaller_of_callsHost {f : Frame} (h : f.callsHost = true) :
    f.isCaller = true := by
  cases f <;> first | rfl | cases h

theorem Frame.inDelivery_of_isCaller {f : Frame} (h : f.isCaller = true) :
    f.inDelivery = false := by
  cases f <;> first | rfl | cases h

/-- `dispatch_signal` about to run is on top. -/
theorem WellStacked.dispatchSignal_not_mem {top : Frame} {rest : List Frame}
    (h : WellStacked (top :: rest)) (sig : Nat) : .dispatchSignal sig ∉ rest := by
  induction rest generalizing top with
  | nil => simp
  | cons next rest ih =>
      obtain ⟨habove, hrest⟩ := h
      intro hmem
      rcases List.mem_cons.mp hmem with rfl | hmem
      · cases top <;> simp [Above, Frame.isCaller, Frame.callsHost] at habove
      · exact ih hrest hmem

theorem SigactionCall.wellStacked {stack below : List Frame} (h : SigactionCall stack below)
    (hstack : WellStacked stack) :
    WellStacked below ∧ (∃ top rest, stack = top :: rest ∧ top.inDelivery = false) ∧
      ∃ top rest, below = top :: rest ∧ top.isCaller = true := by
  cases h with
  | app => exact ⟨hstack, ⟨_, _, rfl, rfl⟩, _, _, rfl, rfl⟩
  | init => exact ⟨hstack, ⟨_, _, rfl, rfl⟩, _, _, rfl, rfl⟩

/-- A drained handler is below a frame that is none. -/
theorem drained_mem_below {stack rest : List Frame} {top f : Frame} (hstack : stack = top :: rest)
    (htop : top.isDrained = false) (hf : f ∈ stack) (hdrained : f.isDrained = true) : f ∈ rest := by
  rw [hstack] at hf
  rcases List.mem_cons.mp hf with rfl | hf
  · rw [htop] at hdrained
    cases hdrained
  · exact hf

theorem undrained_of_below {stack rest : List Frame} {top : Frame} (hstack : stack = top :: rest)
    (htop : top.isDrained = false) (hrest : ∀ f ∈ rest, f.isDrained = false) {f : Frame}
    (hf : f ∈ stack) : f.isDrained = false := by
  rw [hstack] at hf
  rcases List.mem_cons.mp hf with rfl | hf
  · exact htop
  · exact hrest f hf

theorem SigactionCall.drained_mem {stack below : List Frame} (h : SigactionCall stack below)
    {f : Frame} (hf : f ∈ stack) (hdrained : f.isDrained = true) : f ∈ below := by
  cases h with
  | app => exact hf
  | init => exact List.mem_cons_of_mem _ (drained_mem_below rfl rfl hf hdrained)

/-! Deliverable signals -/

/-- `sig` is pending and not blocked. -/
def Entry.Deliverable (e : Entry) (sig : Nat) : Prop :=
  AppSig sig ∧ sigsetTest e.sigpending sig = true ∧ sigsetTest e.sigmask sig = false

theorem quiescent_iff (st : Thread) :
    Quiescent st ↔ ∀ sig, ¬ st.entry.Deliverable sig := by
  constructor
  · intro h sig hdeliver
    have hblocked := h sig hdeliver.1 hdeliver.2.1
    have hopen : sigsetTest st.sigmask sig = false := hdeliver.2.2
    rw [hopen] at hblocked
    cases hblocked
  · intro h sig happ hpending
    by_contra hopen
    exact h sig ⟨happ, hpending, by simpa [Thread.entry] using hopen⟩

/-- A mask with at least the application signals of another one. -/
def MaskLe (a b : Sigset) : Prop :=
  ∀ sig, AppSig sig → sigsetTest a sig = true → sigsetTest b sig = true

theorem maskLe_or (a b : Sigset) : MaskLe a (sigsetOr a b) := by
  intro sig _ h
  simp [h]

theorem sigsetTest_add_of {set : Sigset} {sig : Nat} (h : sigsetTest set sig = true)
    (other : Nat) : sigsetTest (sigsetAdd set other) sig = true := by
  simp only [sigsetTest, sigsetAdd, BitVec.getLsbD_or] at h ⊢
  rw [h, Bool.true_or]

theorem maskLe_handlerMask (sig : Nat) (ksa : KSigaction) (a : Sigset) :
    MaskLe a (handlerMask sig ksa a) := by
  intro other _ h
  unfold handlerMask
  split
  · simp [h]
  · dsimp only
    split
    · exact sigsetTest_add_of (by simp [h]) sig
    · simp [h]

theorem nextMask_block (set a : Sigset) {sig : Nat} (happ : AppSig sig) :
    sigsetTest (nextMask SIG_BLOCK set a) sig = (sigsetTest a sig || sigsetTest set sig) := by
  have hinternal := happ.2.2
  have htimer : sig ≠ SIGTIMER := fun h => hinternal (by subst h; decide)
  have hcancel : sig ≠ SIGCANCEL := fun h => hinternal (by subst h; decide)
  have hsynccall : sig ≠ SIGSYNCCALL := fun h => hinternal (by subst h; decide)
  simp only [nextMask, ↓reduceIte]
  rw [sigsetTest_del happ.1 happ.2.1 (by decide), sigsetTest_del happ.1 happ.2.1 (by decide),
    sigsetTest_del happ.1 happ.2.1 (by decide), sigsetTest_or]
  simp [htimer, hcancel, hsynccall]

theorem Quiescent.mask_le {st st' : Thread} (h : Quiescent st)
    (hpending : st'.sigpending = st.sigpending) (hmask : MaskLe st.sigmask st'.sigmask) :
    Quiescent st' := fun sig happ hsig =>
  hmask sig happ (h sig happ (hpending ▸ hsig))

/-- A signal that is blocked may become pending. -/
theorem deliverable_of_add {sig other : Nat} {st : Thread} (happ : AppSig other)
    (hblocked : sigsetTest st.sigmask other = true)
    (h : AppSig sig ∧ sigsetTest (sigsetAdd st.sigpending other) sig = true ∧
      sigsetTest st.sigmask sig = false) : st.entry.Deliverable sig := by
  obtain ⟨hsig, hpending, hopen⟩ := h
  refine ⟨hsig, ?_, hopen⟩
  rw [sigsetTest_add hsig.1 happ.1 happ.2.1, Bool.or_eq_true, decide_eq_true_eq] at hpending
  rcases hpending with hpending | rfl
  · exact hpending
  · rw [hblocked] at hopen
    cases hopen

/-! The invariant -/

/-- The state at the end of a call. -/
def CallEnds (st : Thread) (call : LibcCall) (entry : Entry) : Prop :=
  call.isSigaction = true ∨ (call.drains = true → Quiescent st) ∧
    ∀ sig, st.entry.Deliverable sig → entry.Deliverable sig

structure QuietInv (st : Thread) : Prop where
  stacked : WellStacked st.stack
  ends : ∀ call entry rest, st.stack = .ret call entry :: rest → CallEnds st call entry
  calm : (∀ f ∈ st.stack, f.isDrained = false) →
    (∃ top rest, st.stack = top :: rest ∧ top.inDelivery = false) → Quiescent st

/-- A call that changes neither set ends at once. -/
theorem callEnds_refl {st : Thread} {call : LibcCall} (h : call.drains = false) :
    CallEnds st call st.entry := by
  refine Or.inr ⟨fun hdrains => ?_, fun sig hsig => hsig⟩
  rw [h] at hdrains
  cases hdrains

theorem CallEnds.of_quiescent {st : Thread} (h : Quiescent st) (call : LibcCall)
    (entry : Entry) : CallEnds st call entry :=
  Or.inr ⟨fun _ => h, fun sig hsig => absurd hsig ((quiescent_iff st).mp h sig)⟩

/-- The sets are those of a state in which nothing is deliverable outside of
a drained handler. -/
theorem QuietInv.of_call {st st' : Thread} {top : Frame} {rest : List Frame}
    (hinv : QuietInv st) (hstack : st.stack = top :: rest) (htop : top.inDelivery = false)
    (hstacked : WellStacked st'.stack)
    (hends : ∀ call entry below, st'.stack = .ret call entry :: below →
      CallEnds st' call entry)
    (hdrained : ∀ f ∈ st.stack, f.isDrained = true → f ∈ st'.stack)
    (hpending : st'.sigpending = st.sigpending) (hmask : MaskLe st.sigmask st'.sigmask) :
    QuietInv st' := by
  refine ⟨hstacked, hends, fun hundrained _ => ?_⟩
  refine (hinv.calm (fun f hf => ?_) ⟨top, rest, hstack, htop⟩).mask_le hpending hmask
  by_contra hnot
  have hyes : f.isDrained = true := by simpa using hnot
  exact hnot (hundrained f (hdrained f hf hyes))

/-- The next thing to run is part of a delivery. -/
theorem QuietInv.of_delivery {st : Thread} {top : Frame} {rest : List Frame}
    (hstack : st.stack = top :: rest) (htop : top.inDelivery = true)
    (hstacked : WellStacked st.stack) : QuietInv st := by
  refine ⟨hstacked, fun call entry below hret => ?_, fun _ hcalm => ?_⟩
  · obtain ⟨rfl, _⟩ := List.cons.inj (hstack.symm.trans hret)
    cases htop
  · obtain ⟨top', rest', hstack', hnot⟩ := hcalm
    obtain ⟨rfl, _⟩ := List.cons.inj (hstack.symm.trans hstack')
    rw [htop] at hnot
    cases hnot

theorem maskLe_refl (a : Sigset) : MaskLe a a := fun _ _ h => h

theorem Dispatches.maskLe {sig : Nat} {drained : Bool} {rest : List Frame}
    {st st' : Thread} (h : Dispatches sig drained rest st st') :
    MaskLe st.sigmask st'.sigmask := by
  rw [h.sigmask_eq]
  exact maskLe_handlerMask _ _ _

theorem Dispatches.quietInv {sig : Nat} {drained : Bool} {below : List Frame}
    {st st' : Thread} {call : LibcCall} {entry : Entry} {rest : List Frame}
    (h : Dispatches sig drained below st st')
    (hbelow : below = .deliverPending :: .ret call entry :: rest)
    (hstacked : WellStacked below)
    (hcalm : drained = false → (∀ f ∈ rest, f.isDrained = false) → Quiescent st) :
    QuietInv st' := by
  have hdispatch : WellStacked (.dispatch (st.invocations + 1) sig drained st.sigmask ::
      below) := ⟨⟨_, hbelow⟩, hstacked⟩
  rcases h.stack_cases with hstack | ⟨_, hstack⟩
  · exact .of_delivery hstack rfl (hstack ▸ hdispatch)
  · refine ⟨?_, ?_, fun hundrained _ => ?_⟩
    · rw [hstack]
      exact ⟨Or.inr ⟨_, _, _, _, _, rfl⟩, hdispatch⟩
    · intro call entry rest hret
      rw [hstack] at hret
      cases hret
    · rw [hstack, hbelow] at hundrained
      have hfirst : drained = false :=
        hundrained (.dispatch (st.invocations + 1) sig drained st.sigmask) (by simp)
      have hquiet := hcalm hfirst fun f hf => hundrained f (by simp [hf])
      exact hquiet.mask_le h.sigpending_eq h.maskLe

/-- A call of the application that changes nothing returns at once. -/
theorem QuietInv.ret_call {st st' : Thread} {inv : Nat} {sections : List (Option Sigset)}
    {rest : List Frame} {call : LibcCall} (hinv : QuietInv st)
    (hstack : st.stack = .app inv sections :: rest)
    (hstack' : st'.stack = .ret call st.entry :: st.stack) (hentry : st'.entry = st.entry)
    (hcall : call.drains = false) : QuietInv st' := by
  obtain ⟨hmask, hpending⟩ := Entry.mk.inj hentry
  refine hinv.of_call hstack rfl ?_ ?_ ?_ hpending ?_
  · rw [hstack']
    exact ⟨⟨_, _, hstack, rfl⟩, hinv.stacked⟩
  · intro call' entry' below hret
    rw [hstack'] at hret
    simp only [List.cons.injEq, Frame.ret.injEq] at hret
    obtain ⟨⟨rfl, rfl⟩, _⟩ := hret
    rw [← hentry]
    exact callEnds_refl hcall
  · intro f hf _
    rw [hstack']
    exact List.mem_cons_of_mem _ hf
  · rw [hmask]
    exact maskLe_refl _

/-- `__libc_sigaction` returns, through the end of the section around it. -/
theorem QuietInv.of_libcSigaction {st st' : Thread} {sig : Nat} {sa : Option Sigaction}
    {set : Option Sigset} {rest : List Frame} (hinv : QuietInv st)
    (hstack : st.stack = .libcSigaction sig sa set :: rest)
    (hstack' : st'.stack = (set.map Frame.restoreSigs).toList ++ rest)
    (hentry : st'.entry = st.entry) : QuietInv st' := by
  obtain ⟨hmask, hpending⟩ := Entry.mk.inj hentry
  have hstacked := hinv.stacked
  rw [hstack] at hstacked
  obtain ⟨⟨sig', result, entry, below, rfl⟩, hrest⟩ := hstacked
  refine hinv.of_call hstack rfl ?_ ?_ ?_ hpending (hmask ▸ maskLe_refl _)
  · rw [hstack']
    cases set with
    | none => exact hrest
    | some bits => exact ⟨⟨_, _, rfl, rfl⟩, hrest⟩
  · intro call entry' below' hret
    rw [hstack'] at hret
    cases set with
    | none =>
        simp only [Option.map_none, Option.toList_none, List.nil_append, List.cons.injEq,
          Frame.ret.injEq] at hret
        obtain ⟨⟨rfl, _⟩, _⟩ := hret
        exact Or.inl rfl
    | some bits => cases hret
  · intro f hf hdrained
    rw [hstack']
    exact List.mem_append_right _ (drained_mem_below hstack rfl hf hdrained)

/-- `sigaction` is called and leaves at least the application signals of the
mask blocked. -/
theorem QuietInv.of_sigaction {st st' : Thread} {sig : Nat} {sa : Option Sigaction}
    {set : Option Sigset} {call : BitVec 32} {below : List Frame} (hinv : QuietInv st)
    (hcall : SigactionCall st.stack below)
    (hstack' : st'.stack = .libcSigaction sig sa set ::
      .ret (.sigaction call .ok) st.entry :: below)
    (hpending : st'.sigpending = st.sigpending) (hmask : MaskLe st.sigmask st'.sigmask) :
    QuietInv st' := by
  obtain ⟨hbelow, ⟨top, rest, hstack, htop⟩, hcaller⟩ := hcall.wellStacked hinv.stacked
  refine hinv.of_call hstack htop ?_ ?_ ?_ hpending hmask
  · rw [hstack']
    exact ⟨⟨_, _, _, _, rfl⟩, hcaller, hbelow⟩
  · intro call entry rest hret
    rw [hstack'] at hret
    cases hret
  · intro f hf hdrained
    rw [hstack']
    exact List.mem_cons_of_mem _ (List.mem_cons_of_mem _ (hcall.drained_mem hf hdrained))

/-- A signal that is blocked becomes pending. -/
theorem QuietInv.of_pended {st : Thread} {sig : BitVec 32} {rest : List Frame}
    (hinv : QuietInv st) (hstack : st.stack = .wasmSignal sig :: rest) (happ : AppSig sig.toNat)
    (hblocked : sigsetTest st.sigmask sig.toNat = true) :
    QuietInv { st with
      sigpending := sigsetAdd st.sigpending sig.toNat
      stack := .ret (.wasmSignal sig .pended) st.entry :: rest } := by
  have hstacked := hinv.stacked
  rw [hstack] at hstacked
  obtain ⟨⟨top, below, rfl, hcalls⟩, hrest⟩ := hstacked
  have hcaller := Frame.isCaller_of_callsHost hcalls
  refine ⟨⟨⟨_, _, rfl, hcaller⟩, hrest⟩, ?_, fun hundrained _ => ?_⟩
  · intro call entry below' hret
    simp only [List.cons.injEq, Frame.ret.injEq] at hret
    obtain ⟨⟨rfl, rfl⟩, _⟩ := hret
    refine Or.inr ⟨fun hdrains => (by cases hdrains), fun other hother => ?_⟩
    exact deliverable_of_add happ hblocked hother
  · have hquiet : Quiescent st := by
      refine hinv.calm (fun f hf => undrained_of_below hstack rfl (fun f hf => ?_) hf)
        ⟨_, _, hstack, rfl⟩
      exact hundrained f (List.mem_cons_of_mem _ hf)
    rw [quiescent_iff] at hquiet ⊢
    exact fun other hother => hquiet other (deliverable_of_add happ hblocked hother)

/-- `pthread_sigmask` sets the mask. -/
theorem QuietInv.of_masked {st : Thread} {how : BitVec 32} {bits : Sigset} {inv : Nat}
    {sections : List (Option Sigset)} {rest : List Frame} (hinv : QuietInv st)
    (hstack : st.stack = .app inv sections :: rest) :
    QuietInv { st with
      sigmask := nextMask how bits st.sigmask
      stack := sigmaskFrames how (.ret (.pthreadSigmask how (some bits) .ok
        (some (st.sigmask &&& ~~~internalMask))) st.entry) ++ st.stack } := by
  have hret : ∀ entry, WellStacked (.ret (.pthreadSigmask how (some bits) .ok
      (some (st.sigmask &&& ~~~internalMask))) entry :: st.stack) := by
    exact fun entry => ⟨⟨_, _, hstack, rfl⟩, hinv.stacked⟩
  unfold sigmaskFrames
  by_cases hblock : how = SIG_BLOCK
  · subst hblock
    simp only [ne_eq, not_true_eq_false, ↓reduceIte, List.singleton_append]
    have hle : MaskLe st.sigmask (nextMask SIG_BLOCK bits st.sigmask) := by
      intro sig happ hsig
      rw [nextMask_block bits st.sigmask happ, hsig]
      rfl
    refine hinv.of_call hstack rfl (hret _) ?_ ?_ rfl hle
    · intro call entry below hbelow
      simp only [List.cons.injEq, Frame.ret.injEq] at hbelow
      obtain ⟨⟨rfl, rfl⟩, _⟩ := hbelow
      refine Or.inr ⟨fun hdrains => (by cases hdrains), fun sig hsig => ?_⟩
      refine ⟨hsig.1, hsig.2.1, ?_⟩
      by_contra hnot
      have hblocked := hle sig hsig.1 (by simpa [Thread.entry] using hnot)
      have hopen : sigsetTest (nextMask SIG_BLOCK bits st.sigmask) sig = false := hsig.2.2
      rw [hopen] at hblocked
      cases hblocked
    · exact fun f hf _ => List.mem_cons_of_mem _ hf
  · simp only [ne_eq, hblock, not_false_eq_true, ↓reduceIte, List.cons_append, List.nil_append]
    exact .of_delivery rfl rfl ⟨⟨_, _, _, rfl, decide_eq_true hblock⟩, hret _⟩

/-- The step lemma of quiescence. -/
theorem Turn.quietInv {st st' : Thread} {e : Event} (h : Turn st e st')
    (hinv : QuietInv st) : QuietInv st' := by
  have hstacked := hinv.stacked
  cases h with
  | @delivered sig top rest hstack hcalls _ =>
      rw [hstack] at hstacked
      have htop := Frame.inDelivery_of_isCaller (Frame.isCaller_of_callsHost hcalls)
      refine hinv.of_call hstack htop ⟨⟨_, _, rfl, hcalls⟩, hstacked⟩ (by simp) ?_ rfl
        (maskLe_refl _)
      intro f hf _
      rw [hstack] at hf
      exact List.mem_cons_of_mem _ hf
  | @ignored sig rest hstack _ =>
      rw [hstack] at hstacked
      obtain ⟨⟨top, below, rfl, hcalls⟩, hrest⟩ := hstacked
      have hcaller := Frame.isCaller_of_callsHost hcalls
      refine hinv.of_call hstack rfl ⟨⟨_, _, rfl, hcaller⟩, hrest⟩ ?_ ?_ rfl (maskLe_refl _)
      · intro call entry below' hret
        simp only [List.cons.injEq, Frame.ret.injEq] at hret
        obtain ⟨⟨rfl, rfl⟩, _⟩ := hret
        exact callEnds_refl rfl
      · exact fun f hf hdrained =>
          List.mem_cons_of_mem _ (drained_mem_below hstack rfl hf hdrained)
  | pended hstack happ hblocked => exact hinv.of_pended hstack happ hblocked
  | @dispatched sig rest _ hstack happ _ hdispatch =>
      rw [hstack] at hstacked
      obtain ⟨⟨top, below, rfl, hcalls⟩, hrest⟩ := hstacked
      have hcaller := Frame.isCaller_of_callsHost hcalls
      refine hdispatch.quietInv rfl ⟨⟨_, _, _, rfl, rfl⟩, ⟨_, _, rfl, hcaller⟩, hrest⟩ ?_
      · exact fun _ hundrained =>
          hinv.calm (fun f hf => undrained_of_below hstack rfl hundrained hf) ⟨_, _, hstack, rfl⟩
  | @drained sig rest _ hstack hdispatch =>
      rw [hstack] at hstacked
      obtain ⟨⟨_, below, rfl⟩, ⟨call, entry, below', rfl, hdrains⟩, hrest⟩ := hstacked
      refine hdispatch.quietInv rfl ⟨⟨_, _, _, rfl, hdrains⟩, hrest⟩ ?_
      intro hfalse
      cases hfalse
  | @finished inv sig drained saved rest hstack =>
      rw [hstack] at hstacked
      obtain ⟨⟨below, rfl⟩, hrest⟩ := hstacked
      exact .of_delivery rfl rfl hrest
  | @cleared sig rest hstack happ _ _ =>
      rw [hstack] at hstacked
      exact .of_delivery rfl rfl ⟨⟨happ, _, rfl⟩, hstacked⟩
  | @idle rest hstack hquiet =>
      rw [hstack] at hstacked
      exact ⟨hstacked.2, fun call entry _ _ => .of_quiescent hquiet call entry, fun _ _ => hquiet⟩
  | @returned call entry rest hstack =>
      rw [hstack] at hstacked
      obtain ⟨⟨top, below, rfl, hcaller⟩, hrest⟩ := hstacked
      refine hinv.of_call hstack rfl hrest ?_ ?_ rfl (maskLe_refl _)
      · intro call' entry' below' hret
        obtain ⟨rfl, _⟩ := List.cons.inj hret
        exact Or.inl hcaller
      · exact fun f hf hdrained => drained_mem_below hstack rfl hf hdrained
  | masked hstack _ => exact hinv.of_masked hstack
  | queriedMask hstack => exact hinv.ret_call hstack rfl rfl rfl
  | refusedMask hstack _ => exact hinv.ret_call hstack rfl rfl rfl
  | @blocked mask keep inv sections rest hstack =>
      rw [hstack] at hstacked
      refine hinv.of_call hstack rfl hstacked ?_ ?_ rfl (maskLe_or _ _)
      · intro call entry below hret
        cases hret
      · exact fun f hf hdrained =>
          List.mem_cons_of_mem _ (drained_mem_below hstack rfl hf hdrained)
  | @callRestore bits inv sections rest hstack =>
      rw [hstack] at hstacked
      refine hinv.of_call hstack rfl ⟨⟨_, _, rfl, rfl⟩, hstacked⟩ ?_ ?_ rfl (maskLe_refl _)
      · intro call entry below hret
        cases hret
      · exact fun f hf hdrained => List.mem_cons_of_mem _
          (List.mem_cons_of_mem _ (drained_mem_below hstack rfl hf hdrained))
  | callRestoreNull hstack =>
      exact .of_delivery rfl rfl ⟨⟨_, _, _, rfl, rfl⟩, ⟨_, _, hstack, rfl⟩, hstacked⟩
  | @restored set rest hstack =>
      rw [hstack] at hstacked
      exact .of_delivery rfl rfl ⟨⟨_, _, _, rfl, rfl⟩, hstacked⟩
  | refusedAction hstack => exact hinv.ret_call hstack rfl rfl rfl
  | action hcall _ _ => exact hinv.of_sigaction hcall rfl rfl (maskLe_refl _)
  | actionAbort hcall _ => exact hinv.of_sigaction hcall rfl rfl (maskLe_or _ _)
  | installed hstack => exact hinv.of_libcSigaction hstack rfl rfl
  | queriedAction hstack => exact hinv.of_libcSigaction hstack rfl rfl
  | @startUp dispositions inv sections rest hstack =>
      refine hinv.of_call hstack rfl ⟨⟨_, _, _, hstack⟩, hstacked⟩ ?_
        (fun f hf _ => List.mem_cons_of_mem _ hf) rfl (maskLe_refl _)
      intro call entry below hret
      cases hret
  | @started rest hstack =>
      rw [hstack] at hstacked
      obtain ⟨⟨inv, sections, below, rfl⟩, hrest⟩ := hstacked
      refine hinv.of_call hstack rfl hrest ?_ ?_ rfl (maskLe_refl _)
      · intro call entry below' hret
        cases hret
      · exact fun f hf hdrained => drained_mem_below hstack rfl hf hdrained
  | refusedStart _ => exact ⟨hinv.stacked, hinv.ends, hinv.calm⟩
  | exited _ => exact ⟨hinv.stacked, hinv.ends, hinv.calm⟩
  | @handlerReturn inv sections rest hstack hne =>
      rw [hstack] at hstacked
      obtain ⟨hempty | ⟨inv', sig, drained, saved, below, rfl⟩, hrest⟩ := hstacked
      · exact absurd hempty hne
      · exact .of_delivery rfl rfl hrest

theorem Start.quietInv {st : Thread} (h : Start st) : QuietInv st := by
  refine ⟨?_, ?_, fun _ _ sig happ hpending => ?_⟩
  · rw [h.stack_eq]
    exact ⟨Or.inl rfl, trivial⟩
  · intro call entry rest hret
    rw [h.stack_eq] at hret
    cases hret
  · rw [h.sigpending_eq] at hpending
    simp [sigsetTest] at hpending

theorem run_quietInv {start st : Thread} {events : List Event} (hstart : Start start)
    (hrun : Run Step start events st) : QuietInv st :=
  hrun.preserves (fun hinv hstep => hstep.turn.2.quietInv hinv) hstart.quietInv

/-- When a call of `__wasm_signal`, `pthread_sigmask` or `__restore_sigs`
returns, no application signal is deliverable if the call ends in
`__sig_deliver_pending`, or if no handler that this loop started is running;
in any case none is deliverable that was not at the call. -/
theorem run_returned_quiescent {start st st' : Thread} {events : List Event}
    {call : LibcCall} {entry : Entry} (hstart : Start start)
    (hrun : Run Step start events st) (hstep : Step st (.returned call entry) st')
    (hcall : call.isSigaction = false) :
    (call.drains = true → Quiescent st') ∧
      ((∀ f ∈ st'.stack, f.isDrained = false) → Quiescent st') ∧
      ∀ sig, st'.entry.Deliverable sig → entry.Deliverable sig := by
  have hinv := run_quietInv hstart hrun
  obtain ⟨_, hturn⟩ := hstep.turn
  cases hturn with
  | @returned _ _ rest hstack =>
      rcases hinv.ends call entry rest hstack with hsigaction | ⟨hdrains, hdeliver⟩
      · rw [hcall] at hsigaction
        cases hsigaction
      · refine ⟨hdrains, fun hundrained => ?_, hdeliver⟩
        exact hinv.calm (fun f hf => undrained_of_below hstack rfl hundrained hf)
          ⟨_, _, hstack, rfl⟩

namespace QuiescenceWitness

def handler : Sigaction := ⟨.func false 1, 0, 0⟩

/-- Signals 10 and 12 become pending while they are blocked; unblocking both
runs the handler of 10, which calls `pthread_sigmask` to block nothing. -/
def choices : List Choice :=
  [.app (.sigaction 10 (some handler)), .libc, .libc,
    .app (.sigaction 12 (some handler)), .libc, .libc,
    .app (.pthreadSigmask SIG_BLOCK (some 0xfff)), .libc,
    .deliver 10, .libc, .libc, .deliver 12, .libc, .libc,
    .app (.pthreadSigmask SIG_SETMASK (some 0)), .libc, .libc,
    .app (.pthreadSigmask SIG_BLOCK (some 0))]

def st : Thread := Thread.init.play choices

def blockCall : LibcCall := .pthreadSigmask SIG_BLOCK (some 0) .ok (some 0x200)

def blockEntry : Entry := ⟨0x200, 0x800⟩

theorem st_step : Step st (.returned blockCall blockEntry) (st.next .libc) :=
  step_next (by decide +kernel)

/-- The call returns while signal 12 is pending and not blocked. -/
theorem nested_block_not_quiescent :
    ¬ ∀ (events : List Event) (st : Thread) (call : LibcCall) (entry : Entry) (st' : Thread),
      Run Step Thread.init events st → Step st (.returned call entry) st' →
      call.isSigaction = false → Quiescent st' := by
  intro h
  have hquiet := h _ _ _ _ _ (play_run choices Thread.init) st_step rfl
  have hblocked := hquiet 12 (by decide) (by decide +kernel)
  revert hblocked
  decide +kernel

/-- The call of the main program returns once both handlers have run. -/
def finished : Thread :=
  st.play [.libc, .app .handlerReturn, .libc, .libc, .libc, .app .handlerReturn, .libc, .libc]

def setCall : LibcCall := .pthreadSigmask SIG_SETMASK (some 0) .ok (some 0xfff)

theorem finished_quiescent : Quiescent (finished.next .libc) := by
  have hrun := (play_run choices Thread.init).append
    (play_run [.libc, .app .handlerReturn, .libc, .libc, .libc, .app .handlerReturn, .libc,
      .libc] st)
  have hstep : Step finished (.returned setCall ⟨0xfff, 0xa00⟩) (finished.next .libc) :=
    step_next (by decide +kernel)
  exact (run_returned_quiescent init_start hrun hstep rfl).1 rfl

end QuiescenceWitness

end Signal

end WasixLibc
