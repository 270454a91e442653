/-
`vfork` on top of `setjmp` and `longjmp`.

The child of a `vfork` goes on in the frames of its parent.  When it ends in an
`exec` or `_Exit`, the host call returns, and `__vfork_restore` jumps back to the
`vfork` that made the child.  Its jump buffer is one of two; every `vfork` fills
the free one before it asks the host.
-/
import WasixLibc.LabelledRun

namespace WasixLibc

namespace Vfork

/-- The thread-local data.  A jump buffer holds the `vfork` call whose `setjmp`
filled it, counted from the start of the thread; `calls` is the number of calls
so far. -/
structure Thread where
  vforkJump : Fin 2 → Option Nat := fun _ => none
  vforkJumpFreeIndex : Fin 2 := 0
  childPid : BitVec 32 := 0
  errno : BitVec 16 := 0
  calls : Nat := 0

/-- What `proc_fork_env` answers. -/
inductive ForkAnswer where
  | accepted (pid : BitVec 32)
  | refused (error : BitVec 16)
deriving Repr, DecidableEq

/-- What a call comes to: it returns to its caller, control goes on in the
`vfork` call that filled a jump buffer and that call returns, or the process is
gone. -/
inductive Outcome where
  | returned (value : BitVec 32)
  | resumed (target : Option Nat) (value : BitVec 32)
  | gone
deriving Repr, DecidableEq

/-- `setjmp(__vfork_jump[__vfork_jump_free_index])`, evaluated by a new call. -/
def setjmpFree (t : Thread) : Thread :=
  { t with
    vforkJump := fun i => if i = t.vforkJumpFreeIndex then some t.calls else t.vforkJump i
    calls := t.calls + 1 }

/-- `__wasi_proc_fork_env(&__child_pid)`. -/
def procForkEnv : ForkAnswer → Thread → BitVec 16 × Thread
  | .accepted pid, t => (0, { t with childPid := pid })
  | .refused error, t => (error, t)

/-- `__vfork_internal`; the host is asked only on the first return of
`setjmp`. -/
def vforkInternal (setjmpResult : Nat) (answer : ForkAnswer) (t : Thread) :
    BitVec 32 × Thread :=
  if setjmpResult = 0 then
    let (ret, t) := procForkEnv answer t
    if ret ≠ 0 then (-1, { t with errno := ret })
    else (0, { t with vforkJumpFreeIndex := 1 - t.vforkJumpFreeIndex })
  else (t.childPid, t)

/-- The macro `vfork()`. -/
def vfork (answer : ForkAnswer) (t : Thread) : Outcome × Thread :=
  let (value, t) := vforkInternal 0 answer (setjmpFree t)
  (.returned value, t)

/-- The buffer that `__vfork_restore` jumps to. -/
def Thread.target (t : Thread) : Option Nat := t.vforkJump (1 - t.vforkJumpFreeIndex)

/-- `__vfork_restore`: the `setjmp` of the target returns once more, with 1. -/
def vforkRestore (t : Thread) : Outcome × Thread :=
  let (value, t') := vforkInternal 1 (.refused 0) t
  (.resumed t.target value, t')

/-- `__execvpe` once `proc_exec4` has returned `e`. -/
def execvpe (e : BitVec 16) (t : Thread) : Outcome × Thread :=
  if e = 0 then vforkRestore t else (.returned (-1), { t with errno := e })

/-- `_Exit` once `proc_exit2` has returned. -/
def exit (t : Thread) : Outcome × Thread := vforkRestore t

/-- A call with the answer of the host.  `exit false` is a `proc_exit2` that
comes back without having ended anything. -/
inductive Call where
  | vfork (answer : ForkAnswer)
  | execvpe (error : BitVec 16)
  | exit (ended : Bool)
deriving Repr, DecidableEq

def Call.perform : Call → Thread → Outcome × Thread
  | .vfork answer, t => Vfork.vfork answer t
  | .execvpe e, t => Vfork.execvpe e t
  | .exit _, t => Vfork.exit t

/-- The host ends the running process for this call. -/
def Call.Succeeds : Call → Prop
  | .execvpe e => e = 0
  | .exit ended => ended = true
  | .vfork _ => False

/-- When the host returns from the call: it accepts no child of a child, and
the end of a process returns only to the parent it shares its frames with. -/
def Call.HostReturns (inChild : Bool) : Call → Prop
  | .vfork (.accepted _) => inChild = false
  | .vfork (.refused e) => e ≠ 0
  | c => c.Succeeds → inChild = true

/-- Does a `vfork` child run after the call? -/
def Call.childAfter (inChild : Bool) : Call → Bool
  | .vfork (.accepted _) => true
  | .vfork (.refused _) => inChild
  | .execvpe e => if e = 0 then false else inChild
  | .exit ended => if ended then false else inChild

/-- A thread, whether a `vfork` child runs in it, and whether its process has
ended. -/
structure World where
  thread : Thread := {}
  inChild : Bool := false
  ended : Bool := false

abbrev Event := Call × Outcome

inductive Step : World → Event → World → Prop
  | returns {w : World} {c : Call} : w.ended = false → c.HostReturns w.inChild →
      Step w (c, (c.perform w.thread).1)
        ⟨(c.perform w.thread).2, c.childAfter w.inChild, false⟩
  | ends {w : World} {c : Call} : w.ended = false → c.Succeeds → w.inChild = false →
      Step w (c, .gone) { w with ended := true }

def World.init : World := {}

/-! One call -/

theorem setjmpFree_target (t : Thread) : (setjmpFree t).target = t.target := by
  have hother : ∀ i : Fin 2, 1 - i ≠ i := by decide
  exact if_neg (hother _)

/-- An accepted `vfork` makes its own buffer the target. -/
theorem vfork_accepted (pid : BitVec 32) (t : Thread) :
    (vfork (.accepted pid) t).1 = .returned 0 ∧
      (vfork (.accepted pid) t).2.target = some t.calls ∧
      (vfork (.accepted pid) t).2.childPid = pid ∧
      (vfork (.accepted pid) t).2.calls = t.calls + 1 := by
  have hback : ∀ i : Fin 2, 1 - (1 - i) = i := by decide
  exact ⟨rfl, if_pos (hback _), rfl, rfl⟩

/-- A refused one leaves the target and the pid. -/
theorem vfork_refused {e : BitVec 16} (he : e ≠ 0) (t : Thread) :
    vfork (.refused e) t = (.returned (-1), { setjmpFree t with errno := e }) := by
  simp only [vfork, vforkInternal, procForkEnv, ↓reduceIte, ne_eq, he, not_false_eq_true]

/-- What `__vfork_restore` depends on. -/
def Thread.SameReturn (t t' : Thread) : Prop :=
  t'.target = t.target ∧ t'.childPid = t.childPid

theorem refused_sameReturn {e : BitVec 16} (he : e ≠ 0) (t : Thread) :
    t.SameReturn (vfork (.refused e) t).2 := by
  rw [vfork_refused he]
  exact ⟨setjmpFree_target t, rfl⟩

theorem execvpe_sameReturn (e : BitVec 16) (t : Thread) : t.SameReturn (execvpe e t).2 := by
  unfold execvpe
  split
  · exact ⟨rfl, rfl⟩
  · exact ⟨rfl, rfl⟩

theorem Call.Succeeds.perform {c : Call} (h : c.Succeeds) (t : Thread) :
    c.perform t = (.resumed t.target t.childPid, t) := by
  cases c with
  | vfork answer => exact h.elim
  | execvpe e => exact if_pos h
  | exit ended => rfl

theorem Call.Succeeds.childAfter {c : Call} (h : c.Succeeds) (inChild : Bool) :
    c.childAfter inChild = false := by
  cases c with
  | vfork answer => exact h.elim
  | execvpe e => exact if_pos h
  | exit ended => exact if_pos h

/-! The child of a run -/

def Call.isVfork : Call → Bool
  | .vfork _ => true
  | _ => false

/-- The number of `vfork` calls made. -/
def vforkCount (events : List Event) : Nat := events.countP fun e => e.1.isVfork

/-- The child with `pid` that the `vfork` call number `call` made has not
ended. -/
def ChildOf (events : List Event) (call : Nat) (pid : BitVec 32) : Prop :=
  ∃ before outcome after, events = before ++ (.vfork (.accepted pid), outcome) :: after ∧
    call = vforkCount before ∧ ∀ e ∈ after, ¬ e.1.Succeeds

theorem childOf_snoc {events : List Event} {e : Event} {call : Nat} {pid : BitVec 32} :
    ChildOf (events ++ [e]) call pid ↔
      ChildOf events call pid ∧ ¬ e.1.Succeeds ∨
        e.1 = .vfork (.accepted pid) ∧ call = vforkCount events := by
  constructor
  · rintro ⟨before, outcome, after, hevents, hcall, hafter⟩
    rcases List.eq_nil_or_concat after with rfl | ⟨front, last, rfl⟩
    · obtain ⟨rfl, he⟩ := List.append_inj' hevents rfl
      obtain rfl := (List.cons.inj he).1
      exact Or.inr ⟨rfl, hcall⟩
    · rw [List.concat_eq_append] at hevents hafter
      rw [← List.cons_append, ← List.append_assoc] at hevents
      obtain ⟨rfl, he⟩ := List.append_inj' hevents rfl
      obtain rfl := (List.cons.inj he).1
      exact Or.inl ⟨⟨before, outcome, front, rfl, hcall,
        fun x hx => hafter x (List.mem_append_left _ hx)⟩, hafter e (by simp)⟩
  · rintro (⟨⟨before, outcome, after, rfl, hcall, hafter⟩, hnot⟩ | ⟨hmade, hcall⟩)
    · refine ⟨before, outcome, after ++ [e], by simp, hcall, fun x hx => ?_⟩
      rcases List.mem_append.mp hx with hx | hx
      · exact hafter x hx
      · exact List.mem_singleton.mp hx ▸ hnot
    · obtain ⟨c, outcome⟩ := e
      obtain rfl : c = _ := hmade
      exact ⟨events, outcome, [], rfl, hcall, by simp⟩

/-- The target and the pid belong to the child that runs. -/
structure VforkInv (events : List Event) (w : World) : Prop where
  calls_eq : w.thread.calls = vforkCount events
  exists_child : w.inChild = true → ∃ call pid, ChildOf events call pid
  returns_to : ∀ call pid, ChildOf events call pid →
    w.inChild = true ∧ w.thread.target = some call ∧ w.thread.childPid = pid

theorem init_vforkInv : VforkInv [] World.init := by
  refine ⟨rfl, fun h => absurd h Bool.false_ne_true, ?_⟩
  rintro call pid ⟨before, _, after, hnil, _⟩
  simp at hnil

/-- A call that neither makes nor ends a child. -/
theorem VforkInv.keeps {events : List Event} {w : World} (h : VforkInv events w) {e : Event}
    {t : Thread} (hcalls : t.calls = vforkCount (events ++ [e]))
    (hsame : w.thread.SameReturn t) (hmade : ∀ pid, e.1 ≠ .vfork (.accepted pid))
    (hends : ¬ e.1.Succeeds) : VforkInv (events ++ [e]) ⟨t, w.inChild, false⟩ := by
  refine ⟨hcalls, fun hchild => ?_, fun call pid hof => ?_⟩
  · obtain ⟨call, pid, hof⟩ := h.exists_child hchild
    exact ⟨call, pid, childOf_snoc.mpr (Or.inl ⟨hof, hends⟩)⟩
  · rcases childOf_snoc.mp hof with ⟨hold, _⟩ | ⟨hnew, _⟩
    · obtain ⟨hchild, htarget, hpid⟩ := h.returns_to call pid hold
      exact ⟨hchild, hsame.1.trans htarget, hsame.2.trans hpid⟩
    · exact absurd hnew (hmade pid)

theorem vforkCount_snoc (events : List Event) (e : Event) :
    vforkCount (events ++ [e]) = vforkCount events + if e.1.isVfork then 1 else 0 := by
  rw [vforkCount, List.countP_append, List.countP_singleton]
  rfl

theorem Call.Succeeds.not_isVfork {c : Call} (h : c.Succeeds) : c.isVfork = false := by
  cases c with
  | vfork answer => exact h.elim
  | execvpe e => rfl
  | exit ended => rfl

/-- A call that ends the child, or the process. -/
theorem VforkInv.ends {events : List Event} {w : World} (h : VforkInv events w) {e : Event}
    (hends : e.1.Succeeds) (ended : Bool) : VforkInv (events ++ [e]) ⟨w.thread, false, ended⟩ := by
  refine ⟨?_, fun hchild => absurd hchild Bool.false_ne_true, fun call pid hof => ?_⟩
  · rw [vforkCount_snoc, hends.not_isVfork]
    exact h.calls_eq
  · rcases childOf_snoc.mp hof with ⟨_, hnot⟩ | ⟨hnew, _⟩
    · exact absurd hends hnot
    · rw [hnew] at hends
      exact hends.elim

/-- A `vfork` that makes a child. -/
theorem VforkInv.accepted {events : List Event} {w : World} (h : VforkInv events w)
    (hchild : w.inChild = false) (pid : BitVec 32) (outcome : Outcome) :
    VforkInv (events ++ [(.vfork (.accepted pid), outcome)])
      ⟨(vfork (.accepted pid) w.thread).2, true, false⟩ := by
  obtain ⟨_, htarget, hpid, hcalls⟩ := vfork_accepted pid w.thread
  refine ⟨?_, fun _ => ⟨vforkCount events, pid, childOf_snoc.mpr (Or.inr ⟨rfl, rfl⟩)⟩,
    fun call pid' hof => ?_⟩
  · rw [vforkCount_snoc, ← h.calls_eq]
    exact hcalls
  · rcases childOf_snoc.mp hof with ⟨hold, _⟩ | ⟨hnew, hcall⟩
    · have hrunning := (h.returns_to call pid' hold).1
      rw [hchild] at hrunning
      exact absurd hrunning Bool.false_ne_true
    · obtain rfl : pid = pid' := ForkAnswer.accepted.inj (Call.vfork.inj hnew)
      rw [hcall, ← h.calls_eq]
      exact ⟨rfl, htarget, hpid⟩

/-- The step lemma. -/
theorem Step.vforkInv {events : List Event} {w w' : World} {e : Event}
    (hinv : VforkInv events w) (h : Step w e w') : VforkInv (events ++ [e]) w' := by
  cases h with
  | @ends c _ hsucceeds hchild =>
      have hdone := @VforkInv.ends _ _ hinv (c, .gone) hsucceeds true
      rw [← hchild] at hdone
      exact hdone
  | @returns c _ hreturns =>
      by_cases hsucceeds : c.Succeeds
      · rw [hsucceeds.perform, hsucceeds.childAfter]
        exact hinv.ends hsucceeds false
      · cases c with
        | vfork answer =>
            cases answer with
            | accepted pid => exact hinv.accepted hreturns pid _
            | refused e =>
                refine hinv.keeps ?_ (refused_sameReturn hreturns w.thread)
                  (fun _ hmade => by cases hmade) hsucceeds
                rw [vforkCount_snoc, ← hinv.calls_eq]
                show (vfork (.refused e) w.thread).2.calls = _
                rw [vfork_refused hreturns]
                rfl
        | execvpe e =>
            have hfailed : Call.childAfter w.inChild (.execvpe e) = w.inChild := if_neg hsucceeds
            rw [hfailed]
            refine hinv.keeps ?_ (execvpe_sameReturn e w.thread) (fun _ hmade => by cases hmade)
              hsucceeds
            rw [vforkCount_snoc, ← hinv.calls_eq]
            show (execvpe e w.thread).2.calls = _
            unfold execvpe
            split <;> rfl
        | exit ended =>
            have hfailed : Call.childAfter w.inChild (.exit ended) = w.inChild := if_neg hsucceeds
            rw [hfailed]
            refine hinv.keeps ?_ ⟨rfl, rfl⟩ (fun _ hmade => by cases hmade) hsucceeds
            rw [vforkCount_snoc, ← hinv.calls_eq]
            rfl

theorem run_vforkInv {events : List Event} {w : World} (hrun : Run Step World.init events w) :
    VforkInv events w :=
  hrun.preserves_trace (fun h hstep => hstep.vforkInv h) init_vforkInv

/-- In every run, the `exec` or `_Exit` that ends a child goes on in the `vfork`
call that made it, which returns its pid; a refused `vfork` changes neither. -/
theorem run_vfork_returns {events : List Event} {w : World}
    (hrun : Run Step World.init events w) :
    (w.inChild = true → ∃ call pid, ChildOf events call pid) ∧
      (∀ call pid, ChildOf events call pid → w.inChild = true ∧
        ∀ c outcome w', Step w (c, outcome) w' → c.Succeeds →
          outcome = .resumed (some call) pid ∧ w'.inChild = false) ∧
      ∀ e outcome w', Step w (.vfork (.refused e), outcome) w' →
        outcome = .returned (-1) ∧ w.thread.SameReturn w'.thread ∧ w'.inChild = w.inChild := by
  have hinv := run_vforkInv hrun
  refine ⟨hinv.exists_child, fun call pid hof => ?_, fun e outcome w' hstep => ?_⟩
  · obtain ⟨hchild, htarget, hpid⟩ := hinv.returns_to call pid hof
    refine ⟨hchild, fun c outcome w' hstep hsucceeds => ?_⟩
    cases hstep with
    | ends _ _ hnot =>
        rw [hchild] at hnot
        cases hnot
    | returns _ _ =>
        rw [hsucceeds.perform, htarget, hpid]
        exact ⟨rfl, hsucceeds.childAfter _⟩
  · cases hstep with
    | ends _ hsucceeds _ => exact hsucceeds.elim
    | returns _ hreturns =>
        refine ⟨?_, refused_sameReturn hreturns w.thread, rfl⟩
        show (vfork (.refused e) w.thread).1 = _
        rw [vfork_refused hreturns]

namespace VforkWitness

/-- A refused call, an accepted one, and in the child a refused call and an
`exec` that fails. -/
def events : List Event :=
  [(.vfork (.refused 6), .returned (-1)), (.vfork (.accepted 42), .returned 0),
    (.vfork (.refused 6), .returned (-1)), (.execvpe 44, .returned (-1))]

theorem events_run : ∃ w, Run Step World.init events w ∧ w.ended = false := by
  have hsix : (6 : BitVec 16) ≠ 0 := by decide
  have hexec : ¬ (44 : BitVec 16) = 0 := by decide
  exact ⟨_, (((Run.nil.snoc (.returns rfl hsix)).snoc (.returns rfl rfl)).snoc
    (.returns rfl hsix)).snoc (.returns rfl fun h => absurd h hexec), rfl⟩

theorem events_childOf : ChildOf events 1 42 := by
  refine ⟨[(.vfork (.refused 6), .returned (-1))], .returned 0, _, rfl, rfl, fun e he => ?_⟩
  rcases List.mem_cons.mp he with rfl | he
  · exact id
  · obtain rfl := List.mem_singleton.mp he
    show ¬ (44 : BitVec 16) = 0
    decide

/-- The `_Exit` of the child goes on in the second call. -/
theorem events_exit_returns : ∃ w w', Run Step World.init events w ∧
    Step w (.exit true, .resumed (some 1) 42) w' := by
  obtain ⟨w, hrun, hended⟩ := events_run
  obtain ⟨_, hreturns, _⟩ := run_vfork_returns hrun
  obtain ⟨hchild, hends⟩ := hreturns 1 42 events_childOf
  have hstep : Step w (.exit true, _) _ := .returns hended fun _ => hchild
  obtain ⟨houtcome, _⟩ := hends _ _ _ hstep rfl
  rw [houtcome] at hstep
  exact ⟨w, _, hrun, hstep⟩

end VforkWitness

end Vfork

end WasixLibc
