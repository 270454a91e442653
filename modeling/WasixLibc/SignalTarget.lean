/-
The id under which the host is asked to signal a thread.

`raise` and `pthread_kill` read the field `tid` of the target and pass it to
the host, with no lock.  The field is written by the creator and by the thread
itself when it starts, at its exit, and in a child of a fork.
-/
import Mathlib.Logic.Function.Basic
import WasixLibc.LabelledRun

namespace WasixLibc

namespace SignalTarget

/-- A thread.  Unlike the address of its `struct pthread`, and unlike its id, it
is not used again. -/
abbrev Thread := Nat

/-- What `__init_tp` stores in the `tid` of the thread that starts the program. -/
def INITIAL_TID : Int := 0x3fffffff

/-- A thread of this process is `exiting` once `__pthread_exit` has cleared its
`tid`, and `ended` when it is gone for the host.  The threads a fork leaves
behind are `absent` from the child. -/
inductive Phase where
  | unborn
  | spawned
  | running
  | exiting
  | ended
  | absent
  deriving DecidableEq

def Phase.Alive (phase : Phase) : Prop :=
  phase = .spawned ∨ phase = .running ∨ phase = .exiting

instance (phase : Phase) : Decidable phase.Alive := inferInstanceAs (Decidable (_ ∨ _))

/-- In the list of threads, as long as nobody holds its lock. -/
def Phase.Listed (phase : Phase) : Prop := phase = .spawned ∨ phase = .running

instance (phase : Phase) : Decidable phase.Listed := inferInstanceAs (Decidable (_ ∨ _))

/-- A creation that holds the list lock: `ret` is what the host returned for the
new thread. -/
structure Creation where
  parent : Thread
  new : Thread
  ret : Int

/-- A signal on its way to the host. -/
structure Signalling where
  target : Thread
  tid : Int

/-- A call to the host; `host` is the id under which the host then knows the
target, if it is alive. -/
structure HostCall where
  target : Thread
  tid : Int
  host : Option Int
  deriving DecidableEq

/-- `hostId` is what `thread_spawn` or `thread_id` report; `initial` is the
thread that `__init_tp` has set up, if it is in this process. -/
structure Process where
  phase : Thread → Phase
  tid : Thread → Int
  hostId : Thread → Int
  freed : Thread → Bool
  initial : Option Thread
  creation : Option Creation
  signalling : Thread → Option Signalling
  calls : List HostCall

/-- The program starts with one thread. -/
def Process.init (main : Thread) (id : Int) : Process where
  phase := Function.update (fun _ => .unborn) main .running
  tid := Function.update (fun _ => 0) main INITIAL_TID
  hostId := Function.update (fun _ => 0) main id
  freed := fun _ => false
  initial := some main
  creation := none
  signalling := fun _ => none
  calls := []

/-- The section of `__pthread_create` under the list lock up to `thread_spawn`,
which has succeeded. -/
def Process.spawn (creation : Creation) (s : Process) : Process :=
  { s with
    phase := Function.update s.phase creation.new .spawned
    tid := Function.update s.tid creation.new 0
    hostId := Function.update s.hostId creation.new creation.ret
    creation := some creation }

/-- `__wasi_thread_start_C` -/
def Process.childStart (thread : Thread) (s : Process) : Process :=
  { s with
    phase := Function.update s.phase thread .running
    tid := Function.update s.tid thread (s.hostId thread) }

/-- The rest of the section of `__pthread_create`. -/
def Process.parentStore (creation : Creation) (s : Process) : Process :=
  { s with
    tid := Function.update s.tid creation.new creation.ret
    creation := none }

/-- `self->tid = 0` in `__pthread_exit` -/
def Process.clear (self : Thread) (s : Process) : Process :=
  { s with
    phase := Function.update s.phase self .exiting
    tid := Function.update s.tid self 0 }

def Process.read (self target : Thread) (s : Process) : Process :=
  { s with signalling := Function.update s.signalling self (some ⟨target, s.tid target⟩) }

/-- `__wasi_thread_signal` -/
def Process.threadSignal (self : Thread) (signalling : Signalling) (s : Process) : Process :=
  { s with
    signalling := Function.update s.signalling self none
    calls := s.calls ++ [⟨signalling.target, signalling.tid,
      if (s.phase signalling.target).Alive then some (s.hostId signalling.target) else none⟩] }

/-- What `_Fork` does in the child, where the host gives the calling thread the
id `id`, and what `fork` does to the other threads if it has taken the locks. -/
def Process.forkChild (self : Thread) (id : Int) (locks : Bool) (s : Process) : Process :=
  { s with
    phase := fun thread =>
      if thread = self then .running
      else if (s.phase thread).Alive then .absent else s.phase thread
    tid := fun thread =>
      if thread = self then id
      else if locks ∧ (s.phase thread).Listed then -1 else s.tid thread
    hostId := Function.update s.hostId self id
    initial := none
    creation := none
    signalling := fun _ => none }

/-- The program has a `pthread_t` of the thread: `pthread_create` has returned
it, or the thread itself has. -/
structure Process.HasHandle (s : Process) (target : Thread) : Prop where
  born : s.phase target ≠ .unborn
  published : s.phase target = .spawned → ∀ creation, s.creation = some creation →
    creation.new ≠ target
  not_freed : s.freed target = false

/-- A thread that runs code of the program and is not in one of the calls. -/
structure Process.Free (s : Process) (thread : Thread) : Prop where
  runs : s.phase thread = .running ∨ s.phase thread = .exiting
  not_signalling : s.signalling thread = none

inductive SignalEvent where
  | spawn (creation : Creation)
  | childStart (thread : Thread)
  | parentStore
  | exit (self : Thread)
  | threadExit (self : Thread)
  | free (thread : Thread)
  | raise (self : Thread)
  | pthreadKill (self target : Thread)
  | threadSignal (self : Thread)
  | forkParent (self : Thread)
  | forkChild (self : Thread) (id : Int) (locks : Bool)

inductive SignalStep : Process → SignalEvent → Process → Prop
  | spawn {s : Process} {creation : Creation} (hparent : s.Free creation.parent)
      (hlock : s.creation = none) (hnew : s.phase creation.new = .unborn)
      (hret : 0 ≤ creation.ret) : SignalStep s (.spawn creation) (s.spawn creation)
  | childStart {s : Process} {thread : Thread} (hthread : s.phase thread = .spawned) :
      SignalStep s (.childStart thread) (s.childStart thread)
  | parentStore {s : Process} {creation : Creation} (hcreation : s.creation = some creation) :
      SignalStep s .parentStore (s.parentStore creation)
  -- under the list lock; the last thread in the list does not exit
  | exit {s : Process} {self other : Thread} (hself : s.phase self = .running)
      (hsignalling : s.signalling self = none) (hlock : s.creation = none)
      (hother : (s.phase other).Listed) (hne : other ≠ self) :
      SignalStep s (.exit self) (s.clear self)
  | threadExit {s : Process} {self : Thread} (hself : s.phase self = .exiting)
      (hsignalling : s.signalling self = none) :
      SignalStep s (.threadExit self) { s with phase := Function.update s.phase self .ended }
  | free {s : Process} {thread : Thread}
      (hthread : s.phase thread = .exiting ∨ s.phase thread = .ended) :
      SignalStep s (.free thread) { s with freed := Function.update s.freed thread true }
  | raise {s : Process} {self : Thread} (hself : s.Free self) :
      SignalStep s (.raise self) (s.read self self)
  | pthreadKill {s : Process} {self target : Thread} (hself : s.Free self)
      (htarget : s.HasHandle target) : SignalStep s (.pthreadKill self target) (s.read self target)
  | threadSignal {s : Process} {self : Thread} {signalling : Signalling}
      (hsignalling : s.signalling self = some signalling) :
      SignalStep s (.threadSignal self) (s.threadSignal self signalling)
  | forkParent {s : Process} {self : Thread} (hself : s.Free self) :
      SignalStep s (.forkParent self) s
  | forkChild {s : Process} {self : Thread} (hself : s.phase self = .running)
      (hsignalling : s.signalling self = none) (id : Int) (locks : Bool)
      (hlock : locks = true → s.creation = none) :
      SignalStep s (.forkChild self id locks) (s.forkChild self id locks)

/-- The target is in the list of this process and not under the id of
`__init_tp` when its id is read, and still there for the host when the call
reaches it. -/
def Process.Careful (s : Process) : SignalEvent → Prop
  | .raise self => (s.phase self).Listed ∧ s.initial ≠ some self
  | .pthreadKill _ target => (s.phase target).Listed ∧ s.initial ≠ some target
  | .threadSignal self => ∀ signalling, s.signalling self = some signalling →
      (s.phase signalling.target).Alive
  | .spawn _ | .childStart _ | .parentStore | .exit _ | .threadExit _ | .free _ | .forkParent _
  | .forkChild _ _ _ => True

/-- A thread that can be signalled has its id, and so has what is on its way to
the host. -/
structure Process.Addressed (s : Process) : Prop where
  running : ∀ thread, s.phase thread = .running → s.initial ≠ some thread →
    s.tid thread = s.hostId thread
  spawned : ∀ thread, s.phase thread = .spawned →
    (∀ creation, s.creation = some creation → creation.new ≠ thread) →
    s.tid thread = s.hostId thread
  creation : ∀ creation, s.creation = some creation →
    creation.ret = s.hostId creation.new ∧ s.phase creation.new ≠ .unborn
  signalling : ∀ self signalling, s.signalling self = some signalling →
    signalling.tid = s.hostId signalling.target ∧ s.phase signalling.target ≠ .unborn
  calls : ∀ call ∈ s.calls, call.host = some call.tid

section Steps

variable {s s' : Process}

theorem init_addressed (main : Thread) (id : Int) : (Process.init main id).Addressed where
  running := by
    intro thread hthread hinitial
    by_cases hmain : thread = main
    · exact absurd (by rw [hmain]; rfl) hinitial
    · simp [Process.init, hmain] at hthread
  spawned := by
    intro thread hthread
    by_cases hmain : thread = main <;> simp [Process.init, hmain] at hthread
  creation := nofun
  signalling := nofun
  calls := nofun

/-- The phase of a thread that did not change. -/
theorem eq_of_update_phase {phase : Thread → Phase} {changed thread : Thread} {old new : Phase}
    (hthread : Function.update phase changed new thread = old) (hne : new ≠ old) :
    thread ≠ changed ∧ phase thread = old := by
  by_cases heq : thread = changed
  · rw [heq, Function.update_self] at hthread
    exact absurd hthread hne
  · rw [Function.update_of_ne heq] at hthread
    exact ⟨heq, hthread⟩

/-- A thread that was born does not become unborn. -/
theorem ne_unborn_of_update {phase : Thread → Phase} {changed thread : Thread} {new : Phase}
    (hthread : phase thread ≠ .unborn) (hnew : new ≠ .unborn) :
    Function.update phase changed new thread ≠ .unborn := by
  intro hunborn
  exact hthread (eq_of_update_phase hunborn hnew).2

theorem spawn_addressed {creation : Creation} (h : s.Addressed) (hlock : s.creation = none)
    (hnew : s.phase creation.new = .unborn) : (s.spawn creation).Addressed where
  running := by
    intro thread hthread hinitial
    obtain ⟨hne, hthread⟩ := eq_of_update_phase hthread (by decide)
    simpa [Process.spawn, hne] using h.running thread hthread hinitial
  spawned := by
    intro thread hthread hpublished
    have hne : thread ≠ creation.new := Ne.symm (hpublished creation rfl)
    simp only [Process.spawn, Function.update_of_ne hne] at hthread ⊢
    exact h.spawned thread hthread (by simp [hlock])
  creation := by
    intro creation' hcreation
    obtain rfl : creation = creation' := Option.some.inj hcreation
    simp [Process.spawn]
  signalling := by
    intro self signalling hsignalling
    obtain ⟨htid, hborn⟩ := h.signalling self signalling hsignalling
    have hne : signalling.target ≠ creation.new := by
      intro heq
      exact hborn (heq ▸ hnew)
    simpa [Process.spawn, hne] using And.intro htid hborn
  calls := h.calls

theorem childStart_addressed (thread : Thread) (h : s.Addressed) :
    (s.childStart thread).Addressed where
  running := by
    intro other hother hinitial
    by_cases heq : other = thread
    · simp [Process.childStart, heq]
    · simp only [Process.childStart, Function.update_of_ne heq] at hother ⊢
      exact h.running other hother hinitial
  spawned := by
    intro other hother hpublished
    obtain ⟨hne, hother⟩ := eq_of_update_phase hother (by decide)
    simpa [Process.childStart, hne] using h.spawned other hother hpublished
  creation := fun creation hcreation =>
    ⟨(h.creation creation hcreation).1,
      ne_unborn_of_update (h.creation creation hcreation).2 (by decide)⟩
  signalling := fun self signalling hsignalling =>
    ⟨(h.signalling self signalling hsignalling).1,
      ne_unborn_of_update (h.signalling self signalling hsignalling).2 (by decide)⟩
  calls := h.calls

/-- Whichever of the two stores comes first, the other stores the same. -/
theorem parentStore_addressed {creation : Creation} (h : s.Addressed)
    (hcreation : s.creation = some creation) : (s.parentStore creation).Addressed := by
  have hret := (h.creation creation hcreation).1
  have hstored : ∀ thread, (thread ≠ creation.new → s.tid thread = s.hostId thread) →
      (s.parentStore creation).tid thread = s.hostId thread := by
    intro thread hkept
    by_cases heq : thread = creation.new
    · simp [Process.parentStore, heq, hret]
    · simpa [Process.parentStore, heq] using hkept heq
  exact {
    running := fun thread hthread hinitial =>
      hstored thread fun _ => h.running thread hthread hinitial
    spawned := fun thread hthread _ => hstored thread fun hne =>
      h.spawned thread hthread fun creation' hcreation' => by
        rw [hcreation] at hcreation'
        obtain rfl := Option.some.inj hcreation'
        exact Ne.symm hne
    creation := nofun
    signalling := h.signalling
    calls := h.calls }

/-- A thread that leaves `Phase.Listed` may have any id. -/
theorem leave_addressed {self : Thread} {phase : Phase} {tid : Thread → Int} (h : s.Addressed)
    (hphase : ¬phase.Listed ∧ phase ≠ .unborn)
    (htid : ∀ thread ≠ self, tid thread = s.tid thread) :
    Process.Addressed { s with phase := Function.update s.phase self phase, tid := tid } where
  running := by
    intro thread hthread hinitial
    obtain ⟨hne, hthread⟩ := eq_of_update_phase hthread fun heq => hphase.1 (Or.inr heq)
    exact (htid thread hne).trans (h.running thread hthread hinitial)
  spawned := by
    intro thread hthread hpublished
    obtain ⟨hne, hthread⟩ := eq_of_update_phase hthread fun heq => hphase.1 (Or.inl heq)
    exact (htid thread hne).trans (h.spawned thread hthread hpublished)
  creation := fun creation hcreation =>
    ⟨(h.creation creation hcreation).1,
      ne_unborn_of_update (h.creation creation hcreation).2 hphase.2⟩
  signalling := fun self signalling hsignalling =>
    ⟨(h.signalling self signalling hsignalling).1,
      ne_unborn_of_update (h.signalling self signalling hsignalling).2 hphase.2⟩
  calls := h.calls

/-- What is read from a listed thread is its id. -/
theorem read_addressed {self target : Thread} (h : s.Addressed)
    (hlisted : (s.phase target).Listed) (hinitial : s.initial ≠ some target)
    (hpublished : s.phase target = .spawned →
      ∀ creation, s.creation = some creation → creation.new ≠ target) :
    (s.read self target).Addressed := by
  have hread : s.tid target = s.hostId target := by
    rcases hlisted with hspawned | hrunning
    · exact h.spawned target hspawned (hpublished hspawned)
    · exact h.running target hrunning hinitial
  exact { h with
    signalling := by
      intro self' signalling hsignalling
      by_cases heq : self' = self
      · simp only [Process.read, heq, Function.update_self, Option.some.injEq] at hsignalling
        rw [← hsignalling]
        refine ⟨hread, fun hunborn => ?_⟩
        have hnot : s.phase target = .unborn := hunborn
        rw [hnot] at hlisted
        exact hlisted.elim nofun nofun
      · simp only [Process.read, Function.update_of_ne heq] at hsignalling
        exact h.signalling self' signalling hsignalling }

theorem threadSignal_addressed {self : Thread} {signalling : Signalling} (h : s.Addressed)
    (hsignalling : s.signalling self = some signalling)
    (halive : (s.phase signalling.target).Alive) : (s.threadSignal self signalling).Addressed :=
  { h with
    signalling := by
      intro self' signalling' hsignalling'
      by_cases heq : self' = self
      · simp [Process.threadSignal, heq] at hsignalling'
      · simp only [Process.threadSignal, Function.update_of_ne heq] at hsignalling'
        exact h.signalling self' signalling' hsignalling'
    calls := by
      intro call hcall
      rcases List.mem_append.mp hcall with hold | hnew
      · exact h.calls call hold
      · rw [List.mem_singleton.mp hnew, if_pos halive,
          (h.signalling self signalling hsignalling).1] }

/-- The thread of the child has stored the id the host gave it. -/
theorem forkChild_addressed {self : Thread} (id : Int) (locks : Bool) (h : s.Addressed) :
    (s.forkChild self id locks).Addressed where
  running := by
    intro thread hthread _
    by_cases heq : thread = self
    · simp [Process.forkChild, heq]
    · simp only [Process.forkChild, if_neg heq] at hthread
      split at hthread
      · cases hthread
      · rename_i hgone
        exact absurd (Or.inr (Or.inl hthread)) hgone
  spawned := by
    intro thread hthread _
    simp only [Process.forkChild] at hthread
    split at hthread
    · cases hthread
    · split at hthread
      · cases hthread
      · rename_i hgone
        exact absurd (Or.inl hthread) hgone
  creation := nofun
  signalling := nofun
  calls := h.calls

theorem step_addressed {event : SignalEvent} (h : s.Addressed)
    (hstep : SignalStep s event s' ∧ s.Careful event) : s'.Addressed := by
  obtain ⟨hstep, hcareful⟩ := hstep
  cases hstep with
  | spawn hparent hlock hnew hret => exact spawn_addressed h hlock hnew
  | @childStart thread hthread => exact childStart_addressed thread h
  | parentStore hcreation => exact parentStore_addressed h hcreation
  | exit hself hsignalling hlock hother hne =>
      exact leave_addressed h (by decide) fun thread hthread => Function.update_of_ne hthread ..
  | threadExit hself hsignalling => exact leave_addressed h (by decide) fun _ _ => rfl
  | free hthread => exact ⟨h.running, h.spawned, h.creation, h.signalling, h.calls⟩
  | @raise self hself =>
      refine read_addressed h hcareful.1 hcareful.2 fun hspawned => ?_
      rcases hself.runs with hruns | hruns <;> rw [hspawned] at hruns <;> cases hruns
  | pthreadKill hself htarget =>
      exact read_addressed h hcareful.1 hcareful.2 htarget.published
  | threadSignal hsignalling => exact threadSignal_addressed h hsignalling (hcareful _ hsignalling)
  | forkParent hself => exact h
  | forkChild hself hsignalling id locks hlock => exact forkChild_addressed id locks h

/-- In every run of careful steps the host knows the target of every call by the
id it is given. -/
theorem run_addressed {main : Thread} {id : Int} {events : List SignalEvent}
    (hrun : Run (fun s event s' => SignalStep s event s' ∧ s.Careful event)
      (Process.init main id) events s) : ∀ call ∈ s.calls, call.host = some call.tid := by
  have haddressed : s.Addressed := hrun.preserves (fun h hstep => step_addressed h hstep)
    (init_addressed main id)
  exact haddressed.calls

end Steps

namespace TargetWitness

/-- The host knows the first thread by 1, and the thread it creates by 2. -/
def creation : Creation where
  parent := 0
  new := 1
  ret := 2

def spawned : Process := (Process.init 0 1).spawn creation

def created : Process := spawned.parentStore creation

def asked : Process := created.read 0 1

def signalled : Process := asked.threadSignal 0 ⟨1, 2⟩

theorem created_addressed :
    signalled.calls = [⟨1, 2, some 2⟩] ∧
    ∀ call ∈ signalled.calls, call.host = some call.tid := by
  have hspawn : SignalStep (Process.init 0 1) (.spawn creation) spawned :=
    .spawn ⟨Or.inl rfl, rfl⟩ rfl rfl (by decide)
  have hstore : SignalStep spawned .parentStore created := .parentStore rfl
  have hkill : SignalStep created (.pthreadKill 0 1) asked :=
    .pthreadKill ⟨Or.inl rfl, rfl⟩ ⟨by decide, nofun, rfl⟩
  have hsignal : SignalStep asked (.threadSignal 0) signalled := .threadSignal rfl
  have halive : asked.Careful (.threadSignal 0) := by
    intro signalling hsignalling
    obtain rfl : (⟨1, 2⟩ : Signalling) = signalling := Option.some.inj hsignalling
    decide
  exact ⟨by decide, run_addressed ((((Run.nil.snoc ⟨hspawn, trivial⟩).snoc
    ⟨hstore, trivial⟩).snoc ⟨hkill, by decide, by decide⟩).snoc ⟨hsignal, halive⟩)⟩

def raised : Process := (Process.init 0 1).read 0 0

/-- The new thread has started, and is gone for the host. -/
def left : Process :=
  { (created.childStart 1).clear 1 with
    phase := Function.update ((created.childStart 1).clear 1).phase 1 .ended }

/-- The first thread raises a signal under an id that is not its own, and a
thread that is gone is signalled under the id 0. -/
theorem initial_not_addressed :
    (∃ events s, Run SignalStep (Process.init 0 1) events s ∧
      s.calls = [⟨0, 0x3fffffff, some 1⟩]) ∧
    ∃ events s, Run SignalStep (Process.init 0 1) events s ∧ s.calls = [⟨1, 0, none⟩] := by
  have hraise : SignalStep (Process.init 0 1) (.raise 0) raised := .raise ⟨Or.inl rfl, rfl⟩
  have hspawn : SignalStep (Process.init 0 1) (.spawn creation) spawned :=
    .spawn ⟨Or.inl rfl, rfl⟩ rfl rfl (by decide)
  have hstore : SignalStep spawned .parentStore created := .parentStore rfl
  have hstart : SignalStep created (.childStart 1) (created.childStart 1) := .childStart rfl
  have hexit : SignalStep (created.childStart 1) (.exit 1) ((created.childStart 1).clear 1) :=
    .exit rfl rfl rfl (show Phase.Listed ((created.childStart 1).phase 0) by decide) (by decide)
  have hend : SignalStep ((created.childStart 1).clear 1) (.threadExit 1) left :=
    .threadExit rfl rfl
  have hkill : SignalStep left (.pthreadKill 0 1) (left.read 0 1) :=
    .pthreadKill ⟨Or.inl rfl, rfl⟩ ⟨by decide, nofun, rfl⟩
  exact ⟨⟨_, raised.threadSignal 0 ⟨0, INITIAL_TID⟩,
      (Run.nil.snoc hraise).snoc (.threadSignal rfl), rfl⟩,
    ⟨_, (left.read 0 1).threadSignal 0 ⟨1, 0⟩,
      ((((((Run.nil.snoc hspawn).snoc hstore).snoc hstart).snoc hexit).snoc hend).snoc hkill).snoc
        (.threadSignal rfl), by decide⟩⟩

end TargetWitness

end SignalTarget

end WasixLibc
