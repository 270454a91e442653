/-
When the internal signals are blocked.

Libc blocks them in its own sections and in no other place, except that
`dispatch_signal` adds a `sa_mask` as it is.  What a section or a delivery
restores at its end was in force before it, so the masks on the stack tell
whether the code below runs with the internal signals blocked.
-/
import WasixLibc.SignalReentrancy

namespace WasixLibc

namespace Signal

/-- No internal signal is blocked. -/
def Clean (set : Sigset) : Prop := set &&& internalMask = 0

instance (set : Sigset) : Decidable (Clean set) := inferInstanceAs (Decidable (_ = _))

theorem clean_or {a b : Sigset} (ha : Clean a) (hb : Clean b) : Clean (sigsetOr a b) := by
  have hand : (a ||| b) &&& internalMask = (a &&& internalMask) ||| (b &&& internalMask) := by
    ext i
    simp [Bool.and_or_distrib_right]
  unfold Clean sigsetOr
  rw [hand, ha, hb]
  rfl

theorem clean_add {set : Sigset} {sig : Nat} (h : Clean set) (happ : AppSig sig) :
    Clean (sigsetAdd set sig) := by
  have hbit : Clean (BitVec.twoPow 64 (sig - 1)) := by
    have hall : ∀ n < 65, AppSig n → Clean (BitVec.twoPow 64 (n - 1)) := by decide +kernel
    exact hall sig happ.2.1 happ
  exact clean_or h hbit

/-! `pthread_sigmask` -/

/-- The mask POSIX asks for. -/
def posixMask (how : BitVec 32) (set sigmask : Sigset) : Sigset :=
  if how = SIG_BLOCK then sigmask ||| set
  else if how = SIG_UNBLOCK then sigmask &&& ~~~set
  else set

/-- The mask after a call, which never blocks an internal signal. -/
def maskAfter (how : BitVec 32) (sigmask : Sigset) : Option Sigset → Sigset
  | none => sigmask
  | some bits => posixMask how bits sigmask &&& ~~~internalMask

theorem sigsetDel_internal (set : Sigset) :
    sigsetDel (sigsetDel (sigsetDel set SIGTIMER) SIGCANCEL) SIGSYNCCALL =
      set &&& ~~~internalMask := by
  unfold sigsetDel
  rw [BitVec.and_assoc, BitVec.and_assoc]
  rfl

/-- `how` is one of the three values. -/
theorem how_cases {how : BitVec 32} (h : ¬ 2 < how - SIG_BLOCK) :
    how = SIG_BLOCK ∨ how = SIG_UNBLOCK ∨ how = SIG_SETMASK := by
  bv_omega

theorem nextMask_eq {how : BitVec 32} (h : ¬ 2 < how - SIG_BLOCK) (set sigmask : Sigset) :
    nextMask how set sigmask = posixMask how set sigmask &&& ~~~internalMask := by
  unfold nextMask
  rw [sigsetDel_internal]
  rcases how_cases h with rfl | rfl | rfl <;> rfl

/-- The call of `pthread_sigmask`, up to the loop. -/
theorem turn_pthreadSigmask {st st' : Thread} {e : Event} {how : BitVec 32}
    {set : Option Sigset} (h : st.turn (.app (.pthreadSigmask how set)) = some (e, st'))
    (hvalid : how = SIG_BLOCK ∨ how = SIG_UNBLOCK ∨ how = SIG_SETMASK) :
    st'.sigmask = maskAfter how st.sigmask set ∧
    st'.sigpending = st.sigpending ∧
    ∃ frames, st'.stack = frames ++ .ret (.pthreadSigmask how set .ok
      (some (st.sigmask &&& ~~~internalMask))) st.entry :: st.stack := by
  have hrange : ¬ 2 < how - SIG_BLOCK := by
    rcases hvalid with rfl | rfl | rfl <;> decide
  obtain ⟨inv, sections, rest, hstack, hexec⟩ := turn_app h
  have hcall := Option.some.inj hexec
  unfold pthreadSigmask at hcall
  cases set with
  | none =>
      obtain ⟨rfl, rfl⟩ := Prod.mk.inj hcall
      exact ⟨rfl, rfl, [], rfl⟩
  | some bits =>
      simp only [if_neg hrange] at hcall
      obtain ⟨rfl, rfl⟩ := Prod.mk.inj hcall
      refine ⟨nextMask_eq hrange bits st.sigmask, rfl, ?_⟩
      unfold sigmaskFrames
      split
      · exact ⟨[.deliverPending], rfl⟩
      · exact ⟨[], rfl⟩

theorem clean_removed (set : Sigset) : Clean (set &&& ~~~internalMask) := by
  unfold Clean
  rw [BitVec.and_assoc]
  simp

/-! Sections -/

/-- The frame has opened a section with `__block_all_sigs` or
`__block_app_sigs`. -/
def Frame.inSection : Frame → Bool
  | .app _ sections => !sections.isEmpty
  | .libcSigaction _ _ set => set.isSome
  | _ => false

def Outside (stack : List Frame) : Prop := ∀ f ∈ stack, f.inSection = false

/-- The set that was saved by the section a restore ends. -/
def savedSet : List (Option Sigset) → Option Sigset
  | [] => none
  | none :: sections => savedSet sections
  | some bits :: _ => some bits

/-- A restore is given the set that its section has saved. -/
def Paired (st st' : Thread) : Prop :=
  ∀ bits inv sections rest, st.stack = .app inv sections :: rest →
    st'.stack = .restoreSigs bits :: .app inv (closeSection sections) :: rest →
    savedSet sections = some bits

def PairedStep (st : Thread) (e : Event) (st' : Thread) : Prop := Step st e st' ∧ Paired st st'

/-- A handler of the application starts without internal signals in its
`sa_mask`. -/
def Event.CleanHandler : Event → Prop
  | .dispatched _ _ ksa => ∀ info id, ksa.handler = .func info id → Clean ksa.mask
  | _ => True

/-- The mask outside of the sections, if the first of them has saved it. -/
def outerMask (sigmask : Sigset) (sections : List (Option Sigset)) : Option Sigset :=
  sections.getLast?.getD (some sigmask)

/-- Where the application goes on outside of the sections, no internal signal
is blocked, if the frames go on with the mask `sigmask`. -/
def CleanOn (sigmask : Sigset) : List Frame → Prop
  | [] => True
  | .app _ sections :: rest =>
      (Outside rest → ∀ set ∈ outerMask sigmask sections, Clean set) ∧ CleanOn sigmask rest
  | .dispatch _ _ _ saved :: rest => CleanOn saved rest
  | .restoreSigs set :: rest => CleanOn set rest
  | .libcSigaction _ _ (some set) :: rest => CleanOn set rest
  | _ :: rest => CleanOn sigmask rest

theorem outside_cons {f : Frame} {rest : List Frame} :
    Outside (f :: rest) ↔ f.inSection = false ∧ Outside rest := by
  simp [Outside]

/-- Frames that set the mask they return with. -/
def Frame.setsMask : Frame → Bool
  | .dispatch .. => true
  | .restoreSigs _ => true
  | _ => false

theorem Frame.setsMask_of_isCaller {f : Frame} (h : f.isCaller = true) : f.setsMask = false := by
  cases f <;> first | rfl | cases h

/-- What is below the application does not depend on its mask. -/
theorem CleanOn.below_app {m m' : Sigset} {inv : Nat} {sections : List (Option Sigset)}
    {rest : List Frame} (habove : Above (.app inv sections) rest) (h : CleanOn m rest) :
    CleanOn m' rest := by
  rcases habove with rfl | ⟨_, _, _, _, _, rfl⟩
  · trivial
  · exact h

/-- The mask is the one the application goes on with. -/
theorem CleanOn.clean {m : Sigset} {top : Frame} {rest : List Frame}
    (hstacked : WellStacked (top :: rest)) (htop : top.setsMask = false)
    (hout : Outside (top :: rest)) (h : CleanOn m (top :: rest)) : Clean m := by
  induction rest generalizing top with
  | nil =>
      cases top with
      | app inv sections =>
          have hnone : sections = [] := by simpa [Outside, Frame.inSection] using hout
          subst hnone
          exact h.1 (outside_cons.mp hout).2 m rfl
      | dispatch | restoreSigs => cases htop
      | _ => simp [WellStacked, Above] at hstacked
  | cons next rest ih =>
      have hout' := (outside_cons.mp hout).2
      have habove := hstacked.1
      cases top with
      | app inv sections =>
          have hnone : sections = [] := by simpa [Frame.inSection] using (outside_cons.mp hout).1
          subst hnone
          exact h.1 hout' m rfl
      | dispatch | restoreSigs => cases htop
      | wasmSignal sig =>
          obtain ⟨_, _, hrest, hcalls⟩ := habove
          obtain ⟨rfl, rfl⟩ := List.cons.inj hrest
          exact ih hstacked.2 (Frame.setsMask_of_isCaller (Frame.isCaller_of_callsHost hcalls))
            hout' h
      | dispatchSignal sig =>
          obtain ⟨_, _, hrest⟩ := habove
          obtain ⟨rfl, rfl⟩ := List.cons.inj hrest
          exact ih hstacked.2 rfl hout' h
      | deliverPending =>
          obtain ⟨_, _, _, hrest, _⟩ := habove
          obtain ⟨rfl, rfl⟩ := List.cons.inj hrest
          exact ih hstacked.2 rfl hout' h
      | libcSigaction sig sa set =>
          obtain ⟨_, _, _, _, hrest⟩ := habove
          obtain ⟨rfl, rfl⟩ := List.cons.inj hrest
          have hnone : set = none := by simpa [Frame.inSection] using (outside_cons.mp hout).1
          subst hnone
          exact ih hstacked.2 rfl hout' h
      | initSignals dispositions =>
          obtain ⟨_, _, _, hrest⟩ := habove
          obtain ⟨rfl, rfl⟩ := List.cons.inj hrest
          exact ih hstacked.2 rfl hout' h
      | ret call entry =>
          obtain ⟨_, _, hrest, hcaller⟩ := habove
          obtain ⟨rfl, rfl⟩ := List.cons.inj hrest
          exact ih hstacked.2 (Frame.setsMask_of_isCaller hcaller) hout' h

theorem handlerMask_clean {m : Sigset} {sig : Nat} {ksa : KSigaction} (hm : Clean m)
    (hmask : Clean ksa.mask) (happ : AppSig sig) : Clean (handlerMask sig ksa m) := by
  unfold handlerMask
  split
  · exact clean_or hm (by decide)
  · dsimp only
    split
    · exact clean_add (clean_or hm hmask) happ
    · exact clean_or hm hmask

theorem Dispatches.cleanOn {sig : Nat} {drained : Bool} {rest : List Frame} {st st' : Thread}
    (h : Dispatches sig drained rest st st') (happ : AppSig sig)
    (hmask : ∀ info id, (st.callbacks sig).handler = .func info id → Clean (st.callbacks sig).mask)
    (hclean : Outside rest → Clean st.sigmask) (hrest : CleanOn st.sigmask rest) :
    CleanOn st'.sigmask st'.stack := by
  rcases h.stack_cases with hstack | ⟨⟨info, id, hfunc⟩, hstack⟩
  · rw [hstack]
    exact hrest
  · rw [hstack]
    refine ⟨fun hout set hset => ?_, hrest⟩
    obtain rfl := Option.some.inj hset
    rw [h.sigmask_eq]
    exact handlerMask_clean (hclean (outside_cons.mp hout).2) (hmask info id hfunc) happ

/-- Closing a section leaves the outer ones as they are. -/
theorem outerMask_closeSection {m bits : Sigset} {sections : List (Option Sigset)}
    (hsaved : savedSet sections = some bits) :
    outerMask bits (closeSection sections) = outerMask m sections := by
  induction sections with
  | nil => cases hsaved
  | cons saved sections ih =>
      cases saved with
      | none =>
          have hne : sections ≠ [] := by
            rintro rfl
            cases hsaved
          rw [closeSection, ih hsaved]
          simp [outerMask, List.getLast?_cons, List.getLast?_eq_some_getLast hne]
      | some set =>
          obtain rfl := Option.some.inj hsaved
          simp [closeSection, outerMask, List.getLast?_cons]

/-- So does opening one, which may save the mask. -/
theorem outerMask_blocked {m m' set : Sigset} {keep : Bool} {sections : List (Option Sigset)}
    (h : set ∈ outerMask m' ((if keep then some m else none) :: sections)) :
    set ∈ outerMask m sections := by
  cases sections with
  | nil =>
      cases keep with
      | true => exact h
      | false => cases h
  | cons saved sections => simpa [outerMask, List.getLast?_cons] using h

theorem SigactionCall.cleanOn {stack below : List Frame} (h : SigactionCall stack below)
    {m : Sigset} (hclean : CleanOn m stack) : CleanOn m below := by
  cases h with
  | app | init => exact hclean

/-- The step lemma. -/
theorem Turn.cleanOn {st st' : Thread} {e : Event} (h : Turn st e st')
    (hstacked : WellStacked st.stack) (hpaired : Paired st st') (hhandler : e.CleanHandler)
    (hinv : CleanOn st.sigmask st.stack) : CleanOn st'.sigmask st'.stack := by
  cases h with
  | delivered hstack _ _ =>
      rw [hstack] at hinv
      exact hinv
  | ignored hstack _ | pended hstack _ _ | finished hstack | cleared hstack _ _ _ | idle hstack _
    | returned hstack | restored hstack | started hstack =>
      rw [hstack] at hinv
      exact hinv
  | queriedMask _ | refusedMask _ _ | callRestoreNull _ | refusedAction _ | startUp _
    | refusedStart _ | exited _ => exact hinv
  | dispatched hstack happ _ hdispatch =>
      have hclean : Outside st.stack → Clean st.sigmask := by
        rw [hstack] at hstacked hinv ⊢
        exact fun hout => hinv.clean hstacked rfl hout
      rw [hstack] at hinv hclean
      refine hdispatch.cleanOn happ hhandler (fun hout => hclean ?_) hinv
      simpa [outside_cons, Frame.inSection] using hout
  | drained hstack hdispatch =>
      have hclean : Outside st.stack → Clean st.sigmask := by
        rw [hstack] at hstacked hinv ⊢
        exact fun hout => hinv.clean hstacked rfl hout
      rw [hstack] at hstacked hinv hclean
      refine hdispatch.cleanOn hstacked.1.1 hhandler (fun hout => hclean ?_) hinv
      simpa [outside_cons, Frame.inSection] using hout
  | @masked how bits inv sections rest hstack hvalid =>
      rw [hstack] at hstacked hinv
      have hbelow : CleanOn (nextMask how bits st.sigmask) st.stack := by
        rw [hstack]
        refine ⟨fun hout set hset => ?_, hinv.2.below_app hstacked.1⟩
        cases hlast : sections.getLast? with
        | none =>
            obtain rfl : nextMask how bits st.sigmask = set := by
              simpa [outerMask, hlast] using hset
            rw [nextMask_eq hvalid]
            exact clean_removed _
        | some saved =>
            refine hinv.1 hout set ?_
            simpa [outerMask, hlast] using hset
      unfold sigmaskFrames
      split
      · exact hbelow
      · exact hbelow
  | @blocked mask keep inv sections rest hstack =>
      rw [hstack] at hstacked hinv
      exact ⟨fun hout set hset => hinv.1 hout set (outerMask_blocked hset),
        hinv.2.below_app hstacked.1⟩
  | @callRestore bits inv sections rest hstack =>
      have hsaved := hpaired bits inv sections rest hstack rfl
      rw [hstack] at hstacked hinv
      refine ⟨?_, hinv.2.below_app hstacked.1⟩
      rw [outerMask_closeSection hsaved]
      exact hinv.1
  | action hcall _ _ => exact hcall.cleanOn hinv
  | actionAbort hcall _ => exact hcall.cleanOn hinv
  | @installed _ _ set _ hstack | @queriedAction _ set _ hstack =>
      rw [hstack] at hinv
      cases set with
      | none => exact hinv
      | some bits => exact hinv
  | handlerReturn hstack _ =>
      rw [hstack] at hinv
      exact hinv.2

theorem run_cleanOn {start st : Thread} {events : List Event} (hstart : Start start)
    (hmask : Clean start.sigmask) (hrun : Run PairedStep start events st)
    (hhandlers : ∀ e ∈ events, e.CleanHandler) : CleanOn st.sigmask st.stack := by
  induction hrun with
  | nil =>
      rw [hstart.stack_eq]
      refine ⟨fun _ set hset => ?_, trivial⟩
      obtain rfl := Option.some.inj hset
      exact hmask
  | @snoc events s t e hrun hstep ih =>
      have hstacked := (run_quietInv hstart (hrun.mono fun h => h.1)).stacked
      refine hstep.1.turn.2.cleanOn hstacked hstep.2 (hhandlers e (by simp)) (ih ?_)
      exact fun e he => hhandlers e (List.mem_append_left _ he)

/-- As long as no handler has an internal signal in its `sa_mask`, none is
blocked where application code runs outside of the sections.  A call of
`pthread_sigmask` removes them from the mask before it delivers, and from the
mask it reports. -/
theorem run_internal_unblocked {start st : Thread} {events : List Event}
    (hstart : Start start) (hmask : Clean start.sigmask)
    (hrun : Run PairedStep start events st) :
    ((∀ e ∈ events, e.CleanHandler) → ∀ inv sections rest,
      st.stack = .app inv sections :: rest → Outside st.stack → Clean st.sigmask) ∧
    ∀ how set e st', st.turn (.app (.pthreadSigmask how set)) = some (e, st') →
      how = SIG_BLOCK ∨ how = SIG_UNBLOCK ∨ how = SIG_SETMASK →
      st'.sigmask = maskAfter how st.sigmask set ∧
      st'.sigpending = st.sigpending ∧
      ∃ frames, st'.stack = frames ++ .ret (.pthreadSigmask how set .ok
        (some (st.sigmask &&& ~~~internalMask))) st.entry :: st.stack := by
  refine ⟨fun hhandlers inv sections rest hstack hout => ?_, ?_⟩
  · have hstacked := (run_quietInv hstart (hrun.mono fun h => h.1)).stacked
    have hclean := run_cleanOn hstart hmask hrun hhandlers
    rw [hstack] at hstacked hclean hout
    exact hclean.clean hstacked rfl hout
  · intro how set e st' hturn hvalid
    exact turn_pthreadSigmask hturn hvalid

namespace InternalWitness

def restores : Frame → Bool
  | .restoreSigs _ => true
  | _ => false

/-- The choices never come to a restore. -/
def restoreFree : List Choice → Thread → Bool
  | [], _ => true
  | c :: choices, st =>
      match st.turn c with
      | none => true
      | some (_, st') => !st'.stack.head?.any restores && restoreFree choices st'

theorem restoreFree_run {choices : List Choice} {st : Thread}
    (h : restoreFree choices st = true) :
    Run PairedStep st (st.events choices) (st.play choices) := by
  induction choices generalizing st with
  | nil => exact .nil
  | cons c choices ih =>
      simp only [restoreFree, Thread.play, Thread.events] at h ⊢
      cases hturn : st.turn c with
      | none => exact .nil
      | some result =>
          simp only [hturn, Bool.and_eq_true, Bool.not_eq_true'] at h
          have hfirst : PairedStep st result.1 result.2 := by
            refine ⟨⟨c, hturn⟩, fun bits inv sections rest _ hstack => ?_⟩
            rw [hstack] at h
            cases h.1
          simpa using (Run.single hfirst).append (ih h.2)

/-- A handler of signal 10 is installed and started. -/
def choices (set : Sigset) : List Choice :=
  [.app (.sigaction 10 (some ⟨.func false 1, 0, set⟩)), .libc, .libc, .deliver 10, .libc]

def st (set : Sigset) : Thread := Thread.init.play (choices set)

/-- With all bits set in its `sa_mask`, it runs with the internal signals
blocked. -/
theorem handler_blocks_internal :
    ¬ ∀ (events : List Event) (st : Thread) (inv : Nat) (sections : List (Option Sigset))
      (rest : List Frame), Run PairedStep Thread.init events st →
      st.stack = .app inv sections :: rest → Outside st.stack → Clean st.sigmask := by
  intro h
  have hrun : Run PairedStep Thread.init _ (st allMask) := restoreFree_run (by decide +kernel)
  have hclean := h _ _ 1 [] (st allMask).stack.tail hrun (by decide +kernel)
    (by unfold Outside; decide +kernel)
  revert hclean
  decide +kernel

theorem handler_clean : Clean (st 0x800).sigmask := by
  have hrun : Run PairedStep Thread.init _ (st 0x800) := restoreFree_run (by decide +kernel)
  have hhandlers : ∀ e ∈ Thread.init.events (choices 0x800), e.CleanHandler := by
    have hevents : Thread.init.events (choices 0x800) =
        [.internal, .installed 10 ⟨.func false 1, SA_RESTORER, 0x800⟩,
          .returned (.sigaction 10 .ok) ⟨0, 0⟩, .delivered 10,
          .dispatched 1 10 ⟨.func false 1, SA_RESTORER, 0x800⟩] := by decide +kernel
    rw [hevents]
    simp [Event.CleanHandler, Clean]
  exact (run_internal_unblocked init_start (by decide) hrun).1 hhandlers 1 []
    (st 0x800).stack.tail (by decide +kernel) (by unfold Outside; decide +kernel)

end InternalWitness

end Signal

end WasixLibc
