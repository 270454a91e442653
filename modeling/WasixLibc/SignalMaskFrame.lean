/-
The mask that a delivery leaves.

A handler may leave any mask behind, and the `dispatch_signal` below it puts
back the one it has saved.  So the mask in force when a call returns can be
read off the frames above its caller at any time.
-/
import WasixLibc.SignalStep

namespace WasixLibc

namespace Signal

/-- When the frames have returned, whatever the application does in them, the
mask is `m`; `sigmask` is the mask they go on with. -/
def Restores (m sigmask : Sigset) : List Frame → Prop
  | [] => sigmask = m
  | .app .. :: rest => ∀ any, Restores m any rest
  | .dispatch _ _ _ saved :: rest => Restores m saved rest
  | .restoreSigs set :: rest => Restores m set rest
  | .libcSigaction _ _ (some set) :: rest => Restores m set rest
  | _ :: rest => Restores m sigmask rest

/-- The frames above `rest` restore `m`. -/
def RestoresAbove (m : Sigset) (rest : List Frame) (st : Thread) : Prop :=
  ∃ above, st.stack = above ++ rest ∧ Restores m st.sigmask above

theorem Dispatches.restoresAbove {sig : Nat} {drained : Bool} {above rest : List Frame}
    {m : Sigset} {st st' : Thread} (h : Dispatches sig drained (above ++ rest) st st')
    (habove : Restores m st.sigmask above) : RestoresAbove m rest st' := by
  rcases h.stack_cases with hstack | ⟨_, hstack⟩
  · exact ⟨_ :: above, hstack, habove⟩
  · exact ⟨_ :: _ :: above, hstack, fun _ => habove⟩

/-- `sigaction` pushes its frames and goes on with the frames below. -/
theorem SigactionCall.restores {m : Sigset} {top : Frame} {above rest below : List Frame}
    (h : SigactionCall (top :: above ++ rest) below) {sigmask : Sigset}
    (hrestores : Restores m sigmask (top :: above)) :
    ∃ top', below = top' :: above ++ rest ∧ Restores m sigmask (top' :: above) := by
  cases h with
  | app => exact ⟨_, rfl, hrestores⟩
  | init => exact ⟨_, rfl, hrestores⟩

/-- The step lemma. -/
theorem Turn.restoresAbove {m : Sigset} {rest : List Frame} {st st' : Thread} {e : Event}
    (h : Turn st e st') (hactive : rest.length < st.stack.length)
    (hrestores : RestoresAbove m rest st) : RestoresAbove m rest st' := by
  obtain ⟨above, habove, hmask⟩ := hrestores
  obtain ⟨top, above, rfl⟩ : ∃ top above', above = top :: above' := by
    cases above with
    | nil =>
        rw [habove] at hactive
        exact absurd hactive (Nat.lt_irrefl _)
    | cons top above => exact ⟨top, above, rfl⟩
  have hsplit : ∀ {top' : Frame} {below : List Frame}, st.stack = top' :: below →
      top = top' ∧ above ++ rest = below :=
    fun hstack => List.cons.inj (habove.symm.trans hstack)
  cases h with
  | delivered hstack _ _ =>
      obtain ⟨rfl, rfl⟩ := hsplit hstack
      exact ⟨_ :: _ :: above, rfl, hmask⟩
  | ignored hstack _ | pended hstack _ _ =>
      obtain ⟨rfl, rfl⟩ := hsplit hstack
      exact ⟨_ :: above, rfl, hmask⟩
  | cleared hstack _ _ _ | restored hstack =>
      obtain ⟨rfl, rfl⟩ := hsplit hstack
      exact ⟨_ :: _ :: above, rfl, hmask⟩
  | dispatched hstack _ _ hdispatch =>
      obtain ⟨rfl, rfl⟩ := hsplit hstack
      exact @Dispatches.restoresAbove _ _ (_ :: _ :: above) _ _ _ _ hdispatch hmask
  | drained hstack hdispatch =>
      obtain ⟨rfl, rfl⟩ := hsplit hstack
      exact hdispatch.restoresAbove hmask
  | finished hstack | idle hstack _ | returned hstack | started hstack =>
      obtain ⟨rfl, rfl⟩ := hsplit hstack
      exact ⟨above, rfl, hmask⟩
  -- the calls of the application, which may set the mask
  | @masked how _ _ _ _ hstack _ =>
      obtain ⟨rfl, rfl⟩ := hsplit hstack
      unfold sigmaskFrames
      split
      · exact ⟨_ :: _ :: _ :: above, congrArg (_ :: _ :: ·) habove, hmask⟩
      · exact ⟨_ :: _ :: above, congrArg (_ :: ·) habove, hmask⟩
  | queriedMask hstack | refusedMask hstack _ | refusedAction hstack | startUp hstack =>
      obtain ⟨rfl, rfl⟩ := hsplit hstack
      exact ⟨_ :: _ :: above, congrArg (_ :: ·) habove, hmask⟩
  | callRestoreNull hstack =>
      obtain ⟨rfl, rfl⟩ := hsplit hstack
      exact ⟨_ :: _ :: _ :: above, congrArg (_ :: _ :: ·) habove, hmask⟩
  | blocked hstack =>
      obtain ⟨rfl, rfl⟩ := hsplit hstack
      exact ⟨_ :: above, rfl, hmask⟩
  | callRestore hstack =>
      obtain ⟨rfl, rfl⟩ := hsplit hstack
      exact ⟨_ :: _ :: above, rfl, hmask⟩
  | handlerReturn hstack _ =>
      obtain ⟨rfl, rfl⟩ := hsplit hstack
      exact ⟨above, rfl, hmask _⟩
  -- `sigaction`, which sets the mask in a section of its own
  | action hcall _ _ =>
      rw [habove] at hcall
      obtain ⟨top', rfl, hrest⟩ := hcall.restores hmask
      exact ⟨_ :: _ :: top' :: above, rfl, hrest⟩
  | actionAbort hcall _ =>
      rw [habove] at hcall
      obtain ⟨top', rfl, hrest⟩ := hcall.restores hmask
      exact ⟨_ :: _ :: top' :: above, rfl, hrest⟩
  | @installed _ _ set _ hstack | @queriedAction _ set _ hstack =>
      obtain ⟨rfl, rfl⟩ := hsplit hstack
      cases set with
      | none => exact ⟨above, rfl, hmask⟩
      | some bits => exact ⟨_ :: above, rfl, hmask⟩
  | refusedStart _ | exited _ => exact ⟨top :: above, habove, hmask⟩

/-! Calls -/

/-- A step that is taken before the call with the frames `rest` below it has
returned. -/
def Active (rest : List Frame) (st : Thread) (e : Event) (st' : Thread) : Prop :=
  Step st e st' ∧ rest.length < st.stack.length

theorem run_restoresAbove {m : Sigset} {rest : List Frame} {st st' : Thread}
    {events : List Event} (hrun : Run (Active rest) st events st')
    (hrestores : RestoresAbove m rest st) : RestoresAbove m rest st' :=
  hrun.preserves (fun h hstep => hstep.1.turn.2.restoresAbove hstep.2 h) hrestores

/-- The frame that `__wasm_signal`, `dispatch_signal` or
`__sig_deliver_pending` starts with. -/
inductive Delivery : Frame → Prop
  | wasmSignal (sig : BitVec 32) : Delivery (.wasmSignal sig)
  | dispatchSignal (sig : Nat) : Delivery (.dispatchSignal sig)
  | deliverPending : Delivery .deliverPending

/-- Whatever the handlers do, a delivery that is over has returned to its
caller, and the mask is the one it was called with. -/
theorem delivery_mask_frame {call : Frame} {rest : List Frame} {st st' : Thread}
    {events : List Event} (hcall : Delivery call) (hstack : st.stack = call :: rest)
    (hrun : Run (Active rest) st events st') (hover : st'.stack.length ≤ rest.length) :
    st'.stack = rest ∧ st'.sigmask = st.sigmask := by
  have hstart : RestoresAbove st.sigmask rest st := by
    refine ⟨[call], hstack, ?_⟩
    cases hcall <;> rfl
  obtain ⟨above, habove, hmask⟩ := run_restoresAbove hrun hstart
  have hnil : above = [] := by
    rw [habove, List.length_append] at hover
    exact List.eq_nil_of_length_eq_zero (by omega)
  subst hnil
  exact ⟨habove, hmask⟩

/-- No choice but the last leads back to a stack of `depth` frames. -/
def staysAbove (depth : Nat) : List Choice → Thread → Bool
  | [], _ => true
  | c :: choices, st =>
      decide (depth < st.stack.length) &&
        match st.turn c with
        | none => true
        | some (_, st) => staysAbove depth choices st

theorem play_active {rest : List Frame} {choices : List Choice} {st : Thread}
    (h : staysAbove rest.length choices st = true) :
    Run (Active rest) st (st.events choices) (st.play choices) := by
  induction choices generalizing st with
  | nil => exact .nil
  | cons c choices ih =>
      simp only [staysAbove, Bool.and_eq_true, decide_eq_true_eq] at h
      simp only [Thread.play, Thread.events]
      cases hturn : st.turn c with
      | none => exact .nil
      | some result =>
          rw [hturn] at h
          have hfirst : Active rest st result.1 result.2 := ⟨⟨c, hturn⟩, h.1⟩
          simpa using (Run.single hfirst).append (ih h.2)

namespace MaskFrameWitness

def handler : Sigaction := ⟨.func false 1, 0, 0⟩

/-- The host calls `__wasm_signal` for 10 while the main program blocks 14. -/
def start : Thread := Thread.init.play
  [.app (.pthreadSigmask SIG_BLOCK (some 0x2000)), .libc, .app (.sigaction 10 (some handler)),
    .libc, .libc, .deliver 10]

/-- The handler blocks 12 for good and is sent 10 again, which the loop takes
up afterwards. -/
def choices : List Choice :=
  [.libc, .app (.pthreadSigmask SIG_BLOCK (some 0x800)), .libc, .deliver 10, .libc, .libc,
    .app .handlerReturn, .libc, .libc, .libc, .app .handlerReturn, .libc, .libc, .libc]

theorem start_mask_frame : (start.play choices).stack = [.app 0 []] ∧
    (start.play choices).sigmask = start.sigmask :=
  delivery_mask_frame (.wasmSignal 10) (show start.stack = [.wasmSignal 10, .app 0 []] by
    decide +kernel) (play_active (by decide +kernel)) (by decide +kernel)

end MaskFrameWitness

end Signal

end WasixLibc
