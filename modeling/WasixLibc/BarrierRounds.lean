/-
Rounds of a barrier that are counted in the frame of their first member.

Only what a member does to the count, the flag and the number of those that have
finished is kept of a thread; how it got the lock and how it waits is left out.
-/
import WasixLibc.FutexThreads

namespace WasixLibc

namespace Rounds

open FutexThreads

/-- What the members of a round share. -/
structure Frame where
  count : Nat
  last : Nat
  finished : Nat
deriving Repr, DecidableEq

/-- What a thread has done in a round; `o` is the thread with the frame. -/
inductive Stage (T : Type) where
  | away
  /-- It has found no open round. -/
  | setting
  | joining (o : T)
  | storing (o : T) (count : Nat)
  /-- It is the last one, and has to end the round. -/
  | clearing (o : T)
  | closing (o : T)
  | middle (o : T)
  /-- It has seen that all are there. -/
  | late (o : T)
  | exiting (o : T)
  | gone
  | owner
  /-- The owner has counted itself among those that have finished. -/
  | owned
deriving Repr, DecidableEq

structure Member (T : Type) where
  returns : Nat
  serials : Nat
  stage : Stage T
deriving Repr, DecidableEq

structure State (T : Type) where
  inst : Option T
  frames : T → Frame
  members : T → Member T

variable {T : Type}

def Member.go (c : Member T) (stage : Stage T) : Member T := { c with stage }

def Member.returned (c : Member T) (serial : Bool) : Member T :=
  ⟨c.returns + 1, if serial then c.serials + 1 else c.serials, .away⟩

/-- The thread has the lock of the barrier, and has not yet counted itself or ended the round. -/
@[simp] def Stage.critical : Stage T → Nat
  | .setting | .joining _ | .storing _ _ | .clearing _ => 1
  | _ => 0

@[simp] def Stage.setting? : Stage T → Nat
  | .setting => 1
  | _ => 0

/-- The frame of the thread is in use. -/
@[simp] def Stage.owning : Stage T → Nat
  | .owner | .owned => 1
  | _ => 0

@[simp] def Stage.own : Stage T → Nat
  | .owned => 1
  | _ => 0

/-- The thread has arrived and has not returned. -/
@[simp] def Stage.inside : Stage T → Nat
  | .clearing _ | .closing _ | .middle _ | .late _ | .exiting _ | .gone | .owner | .owned => 1
  | _ => 0

/-- The thread whose frame the next access goes to. -/
@[simp] def Stage.frame : Stage T → Option T
  | .joining o | .storing o _ | .clearing o | .closing o | .middle o | .late o | .exiting o =>
      some o
  | _ => none

section

variable [DecidableEq T]

@[simp] def Stage.joins (o : T) : Stage T → Nat
  | .joining o' | .storing o' _ => if o' = o then 1 else 0
  | _ => 0

@[simp] def Stage.clears (o : T) : Stage T → Nat
  | .clearing o' => if o' = o then 1 else 0
  | _ => 0

@[simp] def Stage.closes (o : T) : Stage T → Nat
  | .closing o' => if o' = o then 1 else 0
  | _ => 0

@[simp] def Stage.mids (o : T) : Stage T → Nat
  | .middle o' => if o' = o then 1 else 0
  | _ => 0

@[simp] def Stage.lates (o : T) : Stage T → Nat
  | .late o' => if o' = o then 1 else 0
  | _ => 0

@[simp] def Stage.exits (o : T) : Stage T → Nat
  | .exiting o' => if o' = o then 1 else 0
  | _ => 0

/-- The steps of a thread, which is the label. -/
inductive Step (limit : Nat) : State T → T → State T → Prop
  | enters {s : State T} {t : T} (hstage : (s.members t).stage = .away)
      (hfree : ∀ u, (s.members u).stage.critical = 0) :
      Step limit s t ⟨s.inst, s.frames, Function.update s.members t
        ((s.members t).go (s.inst.elim .setting .joining))⟩
  | opens {s : State T} {t : T} (hstage : (s.members t).stage = .setting) :
      Step limit s t ⟨some t, Function.update s.frames t ⟨0, 0, 0⟩,
        Function.update s.members t ((s.members t).go .owner)⟩
  | loads {s : State T} {t o : T} (hstage : (s.members t).stage = .joining o) :
      Step limit s t ⟨s.inst, s.frames, Function.update s.members t
        ((s.members t).go (.storing o (s.frames o).count))⟩
  | stores {s : State T} {t o : T} {count : Nat} (hstage : (s.members t).stage = .storing o count) :
      Step limit s t ⟨s.inst, Function.update s.frames o { s.frames o with count := count + 1 },
        Function.update s.members t
          ((s.members t).go (if count + 1 = limit then .clearing o else .middle o))⟩
  | clears {s : State T} {t o : T} (hstage : (s.members t).stage = .clearing o) :
      Step limit s t ⟨none, s.frames,
        Function.update s.members t ((s.members t).go (.closing o))⟩
  | publishes {s : State T} {t o : T} (hstage : (s.members t).stage = .closing o) :
      Step limit s t ⟨s.inst, Function.update s.frames o { s.frames o with last := 1 },
        Function.update s.members t ((s.members t).go (.late o))⟩
  | passes {s : State T} {t o : T} (hstage : (s.members t).stage = .middle o)
      (hlast : (s.frames o).last ≠ 0) :
      Step limit s t ⟨s.inst, s.frames,
        Function.update s.members t ((s.members t).go (.late o))⟩
  | drops {s : State T} {t o : T} (hstage : (s.members t).stage = .late o) :
      Step limit s t ⟨s.inst, Function.update s.frames o { s.frames o with
          count := ((s.frames o).count + 0xffffffff) % 0x100000000 },
        Function.update s.members t (if (s.frames o).count = 1 then (s.members t).go (.exiting o)
          else (s.members t).returned false)⟩
  | finishes {s : State T} {t o : T} (hstage : (s.members t).stage = .exiting o) :
      Step limit s t ⟨s.inst, Function.update s.frames o { s.frames o with
          finished := (s.frames o).finished + 1 },
        Function.update s.members t (if (s.frames o).finished ≠ 0 then (s.members t).go .gone
          else (s.members t).returned false)⟩
  | returns {s : State T} {t : T} (hstage : (s.members t).stage = .gone) :
      Step limit s t ⟨s.inst, s.frames,
        Function.update s.members t ((s.members t).returned false)⟩
  | owns {s : State T} {t : T} (hstage : (s.members t).stage = .owner) :
      Step limit s t ⟨s.inst, Function.update s.frames t { s.frames t with
          finished := (s.frames t).finished + 1 },
        Function.update s.members t ((s.members t).go .owned)⟩
  | leaves {s : State T} {t : T} (hstage : (s.members t).stage = .owned)
      (hfinished : (s.frames t).finished ≠ 1) :
      Step limit s t ⟨s.inst, s.frames,
        Function.update s.members t ((s.members t).returned true)⟩

end

/-- The phases of a frame, with whether it is in use, whether its owner has finished and whether
its round takes threads, what is in it, and how many threads are at each stage of the round. -/
inductive Agrees (limit : Nat) : (owning own opened : Nat) → Frame →
    (joins clears closes mids lates exits : Nat) → Prop
  | idle {own : Nat} {f : Frame} : Agrees limit 0 own 0 f 0 0 0 0 0 0
  | filling {own joins mids : Nat} (hmids : mids < limit) :
      Agrees limit 1 own 1 ⟨mids, 0, own⟩ joins 0 0 mids 0 0
  | full {own mids : Nat} (hmids : mids + 1 = limit) :
      Agrees limit 1 own 1 ⟨mids + 1, 0, own⟩ 0 1 0 mids 0 0
  | closing {own mids : Nat} (hmids : mids + 1 = limit) :
      Agrees limit 1 own 0 ⟨mids + 1, 0, own⟩ 0 0 1 mids 0 0
  | leaving {own mids lates : Nat} (hpos : 0 < mids + lates) (hle : mids + lates ≤ limit) :
      Agrees limit 1 own 0 ⟨mids + lates, 1, own⟩ 0 0 0 mids lates 0
  | last {own : Nat} : Agrees limit 1 own 0 ⟨0, 1, own⟩ 0 0 0 0 0 1
  | finished {own : Nat} : Agrees limit 1 own 0 ⟨0, 1, own + 1⟩ 0 0 0 0 0 0

section

variable {limit owning own opened joining clearing closed mid late exiting : Nat} {f : Frame}

theorem Agrees.opens (h : Agrees limit 0 own opened f joining clearing closed mid late exiting)
    (hlimit : 0 < limit) :
    Agrees limit 1 0 1 ⟨0, 0, 0⟩ joining clearing closed mid late exiting := by
  cases h
  exact .filling hlimit

theorem Agrees.joins (h : Agrees limit owning own 1 f joining 0 closed mid late exiting) :
    Agrees limit owning own 1 f (joining + 1) 0 closed mid late exiting := by
  cases h with
  | filling hmids => exact .filling hmids

theorem Agrees.stores
    (h : Agrees limit owning own opened f (joining + 1) clearing closed mid late exiting)
    (hsingle : joining = 0) :
    Agrees limit owning own opened { f with count := f.count + 1 } joining
      (if f.count + 1 = limit then clearing + 1 else clearing) closed
      (if f.count + 1 = limit then mid else mid + 1) late exiting := by
  cases h with
  | filling hmids =>
      subst hsingle
      dsimp only
      split
      · rename_i hfull
        exact .full hfull
      · exact .filling (by omega)

theorem Agrees.clears
    (h : Agrees limit owning own opened f joining (clearing + 1) closed mid late exiting) :
    Agrees limit owning own 0 f joining clearing (closed + 1) mid late exiting := by
  cases h with
  | full hmids => exact .closing hmids

/-- A thread that ends a round has found it open. -/
theorem Agrees.opened_of_clearing
    (h : Agrees limit owning own opened f joining clearing closed mid late exiting)
    (hpos : 0 < clearing) : opened = 1 ∧ clearing = 1 ∧ f.count = limit := by
  cases h with
  | full hmids => exact ⟨rfl, rfl, hmids⟩
  | _ => exact absurd hpos (Nat.lt_irrefl 0)

/-- Where a thread joins a round, the round is open and no thread goes. -/
theorem Agrees.opened_of_joining
    (h : Agrees limit owning own opened f joining clearing closed mid late exiting)
    (hpos : 0 < joining) : opened = 1 ∧ late = 0 := by
  cases h with
  | filling hmids => exact ⟨rfl, rfl⟩
  | _ => exact absurd hpos (Nat.lt_irrefl 0)

theorem Agrees.count_of_opened
    (h : Agrees limit owning own 1 f joining clearing closed mid late exiting) :
    owning = 1 ∧ f.count = clearing + mid := by
  cases h with
  | filling hmids => exact ⟨rfl, (Nat.zero_add mid).symm⟩
  | full hmids => exact ⟨rfl, Nat.add_comm mid 1⟩

theorem Agrees.count_of_taking
    (h : Agrees limit owning own 1 f joining 0 closed mid late exiting) :
    f.count = mid ∧ f.count < limit := by
  cases h with
  | filling hmids => exact ⟨rfl, hmids⟩

/-- Where members wait in vain, and none is about to say that all are there, the round is open. -/
theorem Agrees.opened_of_mid
    (h : Agrees limit owning own opened f joining clearing 0 mid late exiting) (hmid : 0 < mid)
    (hlast : f.last = 0) : opened = 1 := by
  cases h with
  | filling => rfl
  | full => rfl
  | leaving => cases hlast
  | _ => exact absurd hmid (Nat.lt_irrefl 0)

/-- The same for an owner that waits in vain. -/
theorem Agrees.opened_of_owned (h : Agrees limit 1 1 opened f joining clearing 0 mid 0 0)
    (hfinished : f.finished = 1) (hlast : 0 < mid → f.last = 0) : opened = 1 := by
  cases h with
  | filling => rfl
  | full => rfl
  | leaving hpos => cases hlast hpos
  | finished => cases hfinished

/-- A round from which threads go is not open. -/
theorem Agrees.closed_of_late
    (h : Agrees limit owning own opened f joining clearing closed mid late exiting)
    (hpos : 0 < late) : opened = 0 := by
  cases h with
  | leaving => rfl
  | _ => exact absurd hpos (Nat.lt_irrefl 0)

theorem Agrees.publishes
    (h : Agrees limit owning own opened f joining clearing (closed + 1) mid late exiting) :
    Agrees limit owning own opened { f with last := 1 } joining clearing closed mid (late + 1)
      exiting := by
  cases h with
  | closing hmids => exact .leaving (Nat.succ_pos _) hmids.le

theorem Agrees.passes
    (h : Agrees limit owning own opened f joining clearing closed (mid + 1) late exiting)
    (hlast : f.last ≠ 0) :
    Agrees limit owning own opened f joining clearing closed mid (late + 1) exiting := by
  cases h with
  | leaving hpos hle =>
      have hsame : mid + 1 + late = mid + (late + 1) := by omega
      rw [hsame] at hpos hle ⊢
      exact .leaving hpos hle
  | _ => exact absurd rfl hlast

theorem Agrees.drops
    (h : Agrees limit owning own opened f joining clearing closed mid (late + 1) exiting)
    (hlimit : limit < 0x100000000) :
    Agrees limit owning own opened { f with count := (f.count + 0xffffffff) % 0x100000000 } joining
      clearing closed mid late (if f.count = 1 then exiting + 1 else exiting) := by
  cases h with
  | leaving hpos hle =>
      have hcount : (mid + (late + 1) + 0xffffffff) % 0x100000000 = mid + late := by omega
      dsimp only
      rw [hcount]
      split
      · rename_i hone
        obtain ⟨rfl, rfl⟩ : mid = 0 ∧ late = 0 := by omega
        exact .last
      · exact .leaving (by omega) (by omega)

theorem Agrees.finishes
    (h : Agrees limit owning own opened f joining clearing closed mid late (exiting + 1)) :
    Agrees limit owning own opened { f with finished := f.finished + 1 } joining clearing closed mid
      late exiting := by
  cases h with
  | last => exact .finished

theorem Agrees.owns (h : Agrees limit 1 0 opened f joining clearing closed mid late exiting) :
    Agrees limit 1 1 opened { f with finished := f.finished + 1 } joining clearing closed mid late
      exiting := by
  cases h with
  | filling hmids => exact .filling hmids
  | full hmids => exact .full hmids
  | closing hmids => exact .closing hmids
  | leaving hpos hle => exact .leaving hpos hle
  | last => exact .last
  | finished => exact .finished

theorem Agrees.leaves (h : Agrees limit 1 1 opened f joining clearing closed mid late exiting)
    (hfinished : f.finished ≠ 1) :
    Agrees limit 0 0 opened f joining clearing closed mid late exiting := by
  cases h with
  | finished => exact .idle
  | _ => exact absurd rfl hfinished

end

variable [Fintype T]

/-- How many threads are at a stage. -/
abbrev sumOf (weight : Stage T → Nat) (members : T → Member T) : Nat :=
  total (fun c => weight c.stage) members

variable [DecidableEq T]

/-- The arrivals in the round that is open. -/
def State.arrivals (s : State T) : Nat := s.inst.elim 0 fun o => (s.frames o).count + 1

def State.Sound (limit : Nat) (s : State T) (o : T) : Prop :=
  Agrees limit (s.members o).stage.owning (s.members o).stage.own (if s.inst = some o then 1 else 0)
    (s.frames o) (sumOf (Stage.joins o) s.members) (sumOf (Stage.clears o) s.members)
    (sumOf (Stage.closes o) s.members) (sumOf (Stage.mids o) s.members)
    (sumOf (Stage.lates o) s.members) (sumOf (Stage.exits o) s.members)

/-- The invariant of the rounds. -/
structure Inv (limit : Nat) (s : State T) : Prop where
  single : sumOf Stage.critical s.members ≤ 1
  setting : 0 < sumOf Stage.setting? s.members → s.inst = none
  sound : ∀ o, s.Sound limit o
  stored : ∀ t o count, (s.members t).stage = .storing o count → count = (s.frames o).count
  rounds : ∃ k, total Member.returns s.members + sumOf Stage.inside s.members =
      (limit + 1) * k + s.arrivals ∧
    total Member.serials s.members + sumOf Stage.owning s.members = k + s.inst.toList.length

/-- Nobody has called. -/
def start : State T := ⟨none, fun _ => ⟨0, 0, 0⟩, fun _ => ⟨0, 0, .away⟩⟩

theorem start_inv (limit : Nat) : Inv limit (start : State T) := by
  refine ⟨?_, fun _ => rfl, fun o => ?_, ?_, ⟨0, ?_, ?_⟩⟩
  · simp [start, total]
  · simp only [State.Sound, start, total, Finset.sum_const_zero, Stage.joins, Stage.clears,
      Stage.closes, Stage.mids, Stage.lates, Stage.exits, Stage.owning]
    exact .idle
  · intro t o count hstage
    cases hstage
  · simp [start, total, State.arrivals]
  · simp [start, total]

theorem sumOf_update (weight : Stage T → Nat) (members : T → Member T) (t : T) (c : Member T) :
    sumOf weight (Function.update members t c) + weight (members t).stage =
      sumOf weight members + weight c.stage :=
  total_update (fun c => weight c.stage) members t c

theorem sumOf_same {weight : Stage T → Nat} {members : T → Member T} {t : T} {c : Member T}
    (hold : weight (members t).stage = 0) (hnew : weight c.stage = 0) :
    sumOf weight (Function.update members t c) = sumOf weight members := by
  have hupdate := sumOf_update weight members t c
  omega

omit [DecidableEq T] in
theorem le_sumOf (weight : Stage T → Nat) (members : T → Member T) (t : T) :
    weight (members t).stage ≤ sumOf weight members :=
  le_total (fun c => weight c.stage) members t

/-- What a move does to a sum: the rest of it is that of the other threads. -/
theorem sumOf_move (weight : Stage T → Nat) (members : T → Member T) (t : T) (c : Member T) :
    ∃ rest, sumOf weight members = rest + weight (members t).stage ∧
      sumOf weight (Function.update members t c) = rest + weight c.stage := by
  obtain ⟨rest, hrest⟩ := Nat.exists_eq_add_of_le' (le_sumOf weight members t)
  have hupdate := sumOf_update weight members t c
  exact ⟨rest, hrest, by omega⟩

omit [Fintype T] in
/-- Stages that belong to the frame of another thread do not count for this one. -/
theorem Stage.other {stage : Stage T} {o : T} (hframe : stage.frame ≠ some o) :
    stage.joins o = 0 ∧ stage.clears o = 0 ∧ stage.closes o = 0 ∧ stage.mids o = 0 ∧
      stage.lates o = 0 ∧ stage.exits o = 0 := by
  cases stage <;> simp_all

/-- The frame that the next access of a thread goes to is in use. -/
theorem Inv.member {limit : Nat} {s : State T} (h : Inv limit s) {t o : T}
    (hframe : (s.members t).stage.frame = some o) :
    (s.members o).stage.owning = 1 ∧ t ≠ o := by
  have hsound := h.sound o
  unfold State.Sound at hsound
  have howning : (s.members o).stage.owning = 1 := by
    generalize (s.members o).stage.owning = owning at hsound ⊢
    generalize (s.members o).stage.own = own at hsound
    generalize s.frames o = f at hsound
    generalize (if s.inst = some o then 1 else 0) = opened at hsound
    have hjoins := le_sumOf (Stage.joins o) s.members t
    have hclears := le_sumOf (Stage.clears o) s.members t
    have hcloses := le_sumOf (Stage.closes o) s.members t
    have hmids := le_sumOf (Stage.mids o) s.members t
    have hlates := le_sumOf (Stage.lates o) s.members t
    have hexits := le_sumOf (Stage.exits o) s.members t
    generalize sumOf (Stage.joins o) s.members = joins at hsound hjoins
    generalize sumOf (Stage.clears o) s.members = clears at hsound hclears
    generalize sumOf (Stage.closes o) s.members = closes at hsound hcloses
    generalize sumOf (Stage.mids o) s.members = mids at hsound hmids
    generalize sumOf (Stage.lates o) s.members = lates at hsound hlates
    generalize sumOf (Stage.exits o) s.members = exits at hsound hexits
    cases hsound with
    | idle =>
        generalize (s.members t).stage = stage at *
        cases stage <;> simp_all
    | _ => rfl
  refine ⟨howning, ?_⟩
  rintro rfl
  generalize (s.members t).stage = stage at hframe howning
  cases stage <;> simp_all

/-- What a thread does elsewhere leaves a frame as it is. -/
theorem Inv.elsewhere {limit : Nat} {s : State T} (h : Inv limit s) {t u : T} {c : Member T}
    {inst : Option T} (hold : (s.members t).stage.frame ≠ some u)
    (hnew : c.stage.frame ≠ some u)
    (hself : t = u → c.stage.owning = (s.members t).stage.owning ∧
      c.stage.own = (s.members t).stage.own)
    (hinst : inst = some u ↔ s.inst = some u) :
    Agrees limit (Function.update s.members t c u).stage.owning
      (Function.update s.members t c u).stage.own (if inst = some u then 1 else 0) (s.frames u)
      (sumOf (Stage.joins u) (Function.update s.members t c))
      (sumOf (Stage.clears u) (Function.update s.members t c))
      (sumOf (Stage.closes u) (Function.update s.members t c))
      (sumOf (Stage.mids u) (Function.update s.members t c))
      (sumOf (Stage.lates u) (Function.update s.members t c))
      (sumOf (Stage.exits u) (Function.update s.members t c)) := by
  obtain ⟨hjoins, hclears, hcloses, hmids, hlates, hexits⟩ := Stage.other hold
  obtain ⟨hjoins', hclears', hcloses', hmids', hlates', hexits'⟩ := Stage.other hnew
  rw [sumOf_same hjoins hjoins', sumOf_same hclears hclears', sumOf_same hcloses hcloses',
    sumOf_same hmids hmids', sumOf_same hlates hlates', sumOf_same hexits hexits']
  have hmember : (Function.update s.members t c u).stage.owning = (s.members u).stage.owning ∧
      (Function.update s.members t c u).stage.own = (s.members u).stage.own := by
    by_cases htu : t = u
    · subst htu
      rw [Function.update_self]
      exact hself rfl
    · rw [Function.update_of_ne (Ne.symm htu)]
      exact ⟨rfl, rfl⟩
  rw [hmember.1, hmember.2]
  simp only [hinst]
  exact h.sound u

omit [Fintype T] [DecidableEq T] in
theorem Stage.frame_ne {stage : Stage T} {o u : T}
    (hframe : stage.frame = some o ∨ stage.frame = none) (hne : u ≠ o) :
    stage.frame ≠ some u := by
  rcases hframe with hframe | hframe <;> rw [hframe]
  · exact fun hsame => hne (Option.some.inj hsame).symm
  · exact fun hsame => by cases hsame

omit [Fintype T] [DecidableEq T] in
theorem Stage.own_of_owning {stage : Stage T} (howning : stage.owning = 0) : stage.own = 0 := by
  cases stage <;> simp_all

/-- One thread at most joins a round or ends it. -/
theorem critical_le (members : T → Member T) (o : T) :
    sumOf (Stage.joins o) members + sumOf (Stage.clears o) members ≤
      sumOf Stage.critical members := by
  rw [← total_add]
  refine Finset.sum_le_sum fun t _ => ?_
  dsimp only
  cases (members t).stage <;> simp <;> split <;> simp

/-- The frame of `o` and the threads in its round agree after a thread has moved, if they did
before; the other threads at each stage are the same. -/
def State.KeepsRound (limit : Nat) (s : State T) (o : T) (inst : Option T) (f : Frame)
    (stage stage' : Stage T) : Prop :=
  ∀ owning own joins clears closes mids lates exits : Nat,
    joins + stage.joins o + (clears + stage.clears o) ≤ sumOf Stage.critical s.members →
    Agrees limit owning own (if s.inst = some o then 1 else 0) (s.frames o)
      (joins + stage.joins o) (clears + stage.clears o) (closes + stage.closes o)
      (mids + stage.mids o) (lates + stage.lates o) (exits + stage.exits o) →
    Agrees limit owning own (if inst = some o then 1 else 0) f (joins + stage'.joins o)
      (clears + stage'.clears o) (closes + stage'.closes o) (mids + stage'.mids o)
      (lates + stage'.lates o) (exits + stage'.exits o)

/-- A thread that is not the owner moves, in the round of one frame. -/
theorem Inv.touch {limit : Nat} {s : State T} (h : Inv limit s) {t o : T} {stage : Stage T}
    {c : Member T} {inst : Option T} {f : Frame} (hne : t ≠ o)
    (hstage : (s.members t).stage = stage)
    (hold : stage.frame = some o ∨ stage.frame = none)
    (hnew : c.stage.frame = some o ∨ c.stage.frame = none)
    (howning : stage.owning = 0 ∧ c.stage.owning = 0)
    (hinst : ∀ u, u ≠ o → (inst = some u ↔ s.inst = some u))
    (hkeeps : s.KeepsRound limit o inst f stage c.stage) (u : T) :
    State.Sound limit ⟨inst, Function.update s.frames o f, Function.update s.members t c⟩ u := by
  subst hstage
  unfold State.Sound
  dsimp only
  by_cases hu : u = o
  · subst hu
    have hsound := h.sound u
    have hcritical := critical_le s.members u
    unfold State.Sound at hsound
    obtain ⟨joins, hjoins, hjoins'⟩ := sumOf_move (Stage.joins u) s.members t c
    obtain ⟨clears, hclears, hclears'⟩ := sumOf_move (Stage.clears u) s.members t c
    obtain ⟨closes, hcloses, hcloses'⟩ := sumOf_move (Stage.closes u) s.members t c
    obtain ⟨mids, hmids, hmids'⟩ := sumOf_move (Stage.mids u) s.members t c
    obtain ⟨lates, hlates, hlates'⟩ := sumOf_move (Stage.lates u) s.members t c
    obtain ⟨exits, hexits, hexits'⟩ := sumOf_move (Stage.exits u) s.members t c
    rw [hjoins, hclears] at hcritical
    rw [hjoins, hclears, hcloses, hmids, hlates, hexits] at hsound
    rw [Function.update_of_ne (Ne.symm hne), Function.update_self, hjoins', hclears', hcloses',
      hmids', hlates', hexits']
    exact hkeeps _ _ _ _ _ _ _ _ hcritical hsound
  · rw [Function.update_of_ne hu]
    exact h.elsewhere (Stage.frame_ne hold hu) (Stage.frame_ne hnew hu)
      (fun _ => ⟨by omega, by rw [Stage.own_of_owning howning.1, Stage.own_of_owning howning.2]⟩)
      (hinst u hu)

omit [Fintype T] [DecidableEq T] in
theorem Stage.owning_of_frame {stage : Stage T} {o : T} (hframe : stage.frame = some o) :
    stage.owning = 0 := by
  cases stage <;> simp_all

/-- A thread that is in the round of one frame moves. -/
theorem Inv.moves {limit : Nat} {s : State T} (h : Inv limit s) {t o : T} {stage : Stage T}
    {c : Member T} {inst : Option T} {f : Frame} (hstage : (s.members t).stage = stage)
    (hframe : stage.frame = some o)
    (hnew : c.stage.frame = some o ∨ c.stage.frame = none) (howning : c.stage.owning = 0)
    (hinst : ∀ u, u ≠ o → (inst = some u ↔ s.inst = some u))
    (hkeeps : s.KeepsRound limit o inst f stage c.stage) (u : T) :
    State.Sound limit ⟨inst, Function.update s.frames o f, Function.update s.members t c⟩ u :=
  h.touch (h.member (hstage ▸ hframe)).2 hstage (Or.inl hframe) hnew
    ⟨Stage.owning_of_frame hframe, howning⟩ hinst hkeeps u

/-- A thread moves that has to do with no frame but its own. -/
theorem Inv.touchOwn {limit : Nat} {s : State T} (h : Inv limit s) {t : T} {c : Member T}
    {inst : Option T} {f : Frame} (hold : (s.members t).stage.frame = none)
    (hnew : c.stage.frame = none) (hinst : ∀ u, u ≠ t → (inst = some u ↔ s.inst = some u))
    (hagrees : Agrees limit c.stage.owning c.stage.own (if inst = some t then 1 else 0) f
      (sumOf (Stage.joins t) s.members) (sumOf (Stage.clears t) s.members)
      (sumOf (Stage.closes t) s.members) (sumOf (Stage.mids t) s.members)
      (sumOf (Stage.lates t) s.members) (sumOf (Stage.exits t) s.members)) (u : T) :
    State.Sound limit ⟨inst, Function.update s.frames t f, Function.update s.members t c⟩ u := by
  have hold' : ∀ u, (s.members t).stage.frame ≠ some u := fun u => by rw [hold]; simp
  have hnew' : ∀ u, c.stage.frame ≠ some u := fun u => by rw [hnew]; simp
  unfold State.Sound
  dsimp only
  by_cases hu : u = t
  · subst hu
    obtain ⟨hjoins, hclears, hcloses, hmids, hlates, hexits⟩ := Stage.other (hold' u)
    obtain ⟨hjoins', hclears', hcloses', hmids', hlates', hexits'⟩ := Stage.other (hnew' u)
    rw [sumOf_same hjoins hjoins', sumOf_same hclears hclears', sumOf_same hcloses hcloses',
      sumOf_same hmids hmids', sumOf_same hlates hlates', sumOf_same hexits hexits',
      Function.update_self, Function.update_self]
    exact hagrees
  · rw [show Function.update s.frames t f u = s.frames u from Function.update_of_ne hu _ _]
    exact h.elsewhere (hold' u) (hnew' u) (fun htu => absurd htu.symm hu) (hinst u hu)

omit [DecidableEq T] in
theorem sumOf_pos_of {weight : Stage T → Nat} {members : T → Member T} {t : T}
    (hone : weight (members t).stage = 1) : 0 < sumOf weight members :=
  Nat.lt_of_lt_of_le (hone ▸ Nat.one_pos) (le_sumOf weight members t)

/-- The round that a thread ends is the one that is open. -/
theorem Inv.inst_of_clearing {limit : Nat} {s : State T} (h : Inv limit s) {t o : T}
    (hstage : (s.members t).stage = .clearing o) : s.inst = some o := by
  have hsound := h.sound o
  unfold State.Sound at hsound
  have hopen := (hsound.opened_of_clearing (sumOf_pos_of (t := t) (by rw [hstage]; simp))).1
  by_contra hne
  rw [if_neg hne] at hopen
  cases hopen

/-- A step keeps what holds of the frames. -/
theorem Inv.step_sound {limit : Nat} {s s' : State T} {t : T} (hlimit : 0 < limit)
    (hbound : limit < 0x100000000) (hstep : Step limit s t s') (h : Inv limit s) (u : T) :
    s'.Sound limit u := by
  have hsingle := h.single
  cases hstep with
  | enters hstage hfree =>
      have hnone : sumOf Stage.critical s.members = 0 := Finset.sum_eq_zero fun u _ => hfree u
      cases hinst : s.inst with
      | none =>
          rw [← Function.update_eq_self t s.frames]
          refine h.touchOwn (by rw [hstage]; rfl) rfl (fun _ _ => by rw [hinst]) ?_ u
          have hsound := h.sound t
          unfold State.Sound at hsound
          rw [hstage, hinst] at hsound
          exact hsound
      | some o =>
          have hne : t ≠ o := by
            rintro rfl
            have hsound := h.sound t
            unfold State.Sound at hsound
            rw [hstage, if_pos hinst] at hsound
            cases hsound
          rw [← Function.update_eq_self o s.frames]
          refine h.touch hne hstage (Or.inr rfl) (Or.inl rfl) ⟨rfl, rfl⟩ (fun _ _ => by rw [hinst])
            (fun _ _ joins clears closes mids lates exits hcritical hsound => ?_) u
          obtain rfl : clears = 0 := by omega
          rw [if_pos hinst] at hsound
          simpa [Member.go] using hsound.joins
  | opens hstage =>
      have hnone := h.setting (sumOf_pos_of (t := t) (by rw [hstage]; rfl))
      have hsound := h.sound t
      unfold State.Sound at hsound
      rw [hstage] at hsound
      refine h.touchOwn (by rw [hstage]; rfl) rfl (fun v hv => ?_) ?_ u
      · rw [hnone]
        exact iff_of_false (fun hsame => hv (Option.some.inj hsame).symm)
          (fun hsome => by cases hsome)
      · rw [if_pos rfl]
        exact hsound.opens hlimit
  | @loads o hstage =>
      rw [← Function.update_eq_self o s.frames]
      exact h.moves hstage rfl (Or.inl rfl) rfl (fun _ _ => Iff.rfl)
        (fun _ _ _ _ _ _ _ _ _ hsound => hsound) u
  | @stores o count hstage =>
      obtain rfl := h.stored t o count hstage
      refine h.moves hstage rfl (Or.inl (by split <;> rfl)) (by split <;> rfl)
        (fun _ _ => Iff.rfl) (fun _ _ joins clears closes mids lates exits hcritical hsound => ?_) u
      simp at hcritical hsound
      have hnext := hsound.stores (by omega)
      by_cases hfull : (s.frames o).count + 1 = limit
      · simpa [Member.go, hfull] using hnext
      · simpa [Member.go, hfull] using hnext
  | @clears o hstage =>
      rw [← Function.update_eq_self o s.frames]
      refine h.moves hstage rfl (Or.inl rfl) rfl (fun v hv => ?_)
        (fun _ _ _ _ _ _ _ _ _ hsound => ?_) u
      · rw [h.inst_of_clearing hstage]
        exact iff_of_false (fun hnone => by cases hnone)
          (fun hsame => hv (Option.some.inj hsame).symm)
      · simp at hsound
        simpa [Member.go] using hsound.clears
  | @publishes o hstage =>
      refine h.moves hstage rfl (Or.inl rfl) rfl (fun _ _ => Iff.rfl)
        (fun _ _ _ _ _ _ _ _ _ hsound => ?_) u
      simp at hsound
      simpa [Member.go] using hsound.publishes
  | @passes o hstage hlast =>
      rw [← Function.update_eq_self o s.frames]
      refine h.moves hstage rfl (Or.inl rfl) rfl (fun _ _ => Iff.rfl)
        (fun _ _ _ _ _ _ _ _ _ hsound => ?_) u
      simp at hsound
      simpa [Member.go] using hsound.passes hlast
  | @drops o hstage =>
      refine h.moves hstage rfl (by split; exacts [Or.inl rfl, Or.inr rfl]) (by split <;> rfl)
        (fun _ _ => Iff.rfl) (fun _ _ _ _ _ _ _ _ _ hsound => ?_) u
      simp at hsound
      have hnext := hsound.drops hbound
      by_cases hone : (s.frames o).count = 1
      · simpa [Member.go, hone] using hnext
      · simpa [Member.returned, hone] using hnext
  | @finishes o hstage =>
      refine h.moves hstage rfl (Or.inr (by split <;> rfl)) (by split <;> rfl)
        (fun _ _ => Iff.rfl) (fun _ _ _ _ _ _ _ _ _ hsound => ?_) u
      simp at hsound
      by_cases hnone : (s.frames o).finished = 0
      · simpa [Member.returned, hnone] using hsound.finishes
      · simpa [Member.go, hnone] using hsound.finishes
  | returns hstage =>
      have hsound := h.sound t
      unfold State.Sound at hsound
      rw [hstage] at hsound
      rw [← Function.update_eq_self t s.frames]
      exact h.touchOwn (by rw [hstage]; rfl) rfl (fun _ _ => Iff.rfl) hsound u
  | owns hstage =>
      have hsound := h.sound t
      unfold State.Sound at hsound
      rw [hstage] at hsound
      refine h.touchOwn (by rw [hstage]; rfl) rfl (fun _ _ => Iff.rfl) ?_ u
      exact hsound.owns
  | leaves hstage hfinished =>
      have hsound := h.sound t
      unfold State.Sound at hsound
      rw [hstage] at hsound
      rw [← Function.update_eq_self t s.frames]
      refine h.touchOwn (by rw [hstage]; rfl) rfl (fun _ _ => Iff.rfl) ?_ u
      exact hsound.leaves hfinished

theorem Inv.inst_of_storing {limit : Nat} {s : State T} (h : Inv limit s) {t o : T} {count : Nat}
    (hstage : (s.members t).stage = .storing o count) :
    s.inst = some o ∧ sumOf (Stage.lates o) s.members = 0 := by
  have hsound := h.sound o
  unfold State.Sound at hsound
  obtain ⟨hopen, hlates⟩ :=
    hsound.opened_of_joining (sumOf_pos_of (t := t) (by rw [hstage]; simp))
  refine ⟨?_, hlates⟩
  by_contra hne
  rw [if_neg hne] at hopen
  cases hopen

theorem Inv.inst_of_late {limit : Nat} {s : State T} (h : Inv limit s) {t o : T}
    (hstage : (s.members t).stage = .late o) : s.inst ≠ some o := by
  have hsound := h.sound o
  unfold State.Sound at hsound
  have hclosed := hsound.closed_of_late (sumOf_pos_of (t := t) (by rw [hstage]; simp))
  intro hinst
  rw [if_pos hinst] at hclosed
  cases hclosed

theorem Inv.step_single {limit : Nat} {s s' : State T} {t : T} (hstep : Step limit s t s')
    (h : Inv limit s) : sumOf Stage.critical s'.members ≤ 1 := by
  have hsingle := h.single
  have hmove : ∀ c : Member T, c.stage.critical ≤ (s.members t).stage.critical →
      sumOf Stage.critical (Function.update s.members t c) ≤ 1 := by
    intro c hle
    have hupdate := sumOf_update Stage.critical s.members t c
    omega
  cases hstep with
  | enters hstage hfree =>
      have hnone : sumOf Stage.critical s.members = 0 := Finset.sum_eq_zero fun u _ => hfree u
      have hupdate := sumOf_update Stage.critical s.members t
        ((s.members t).go (s.inst.elim .setting .joining))
      have hone : ((s.members t).go (s.inst.elim .setting .joining)).stage.critical = 1 := by
        cases s.inst <;> rfl
      dsimp only
      omega
  | stores hstage =>
      refine hmove _ ?_
      rw [hstage]
      split <;> simp [Member.go]
  | drops hstage =>
      refine hmove _ ?_
      rw [hstage]
      split <;> simp [Member.go, Member.returned]
  | finishes hstage =>
      refine hmove _ ?_
      rw [hstage]
      split <;> simp [Member.go, Member.returned]
  | _ =>
      rename_i hstage
      refine hmove _ ?_
      first
        | exact Nat.zero_le _
        | rw [hstage]; simp [Member.go]

omit [DecidableEq T] in
theorem setting_le (members : T → Member T) :
    sumOf Stage.setting? members ≤ sumOf Stage.critical members := by
  refine Finset.sum_le_sum fun t _ => ?_
  dsimp only
  cases (members t).stage <;> simp

theorem Inv.step_setting {limit : Nat} {s s' : State T} {t : T} (hstep : Step limit s t s')
    (h : Inv limit s) : 0 < sumOf Stage.setting? s'.members → s'.inst = none := by
  have hsetting := h.setting
  have hmove : ∀ c : Member T, c.stage.setting? ≤ (s.members t).stage.setting? →
      0 < sumOf Stage.setting? (Function.update s.members t c) → s.inst = none := by
    intro c hle hpos
    have hupdate := sumOf_update Stage.setting? s.members t c
    exact hsetting (by omega)
  cases hstep with
  | enters hstage hfree =>
      intro hpos
      cases hinst : s.inst with
      | none => rfl
      | some o =>
          dsimp only at hpos
          rw [hinst] at hpos
          exact hinst ▸ hmove _ (Nat.zero_le _) hpos
  | opens hstage =>
      intro hpos
      have hle := setting_le s.members
      have hsingle := h.single
      have hupdate := sumOf_update Stage.setting? s.members t ((s.members t).go .owner)
      rw [hstage] at hupdate
      simp [Member.go] at hupdate
      dsimp only at hpos
      simp [Member.go] at hpos
      omega
  | clears hstage => exact fun _ => rfl
  | stores hstage =>
      refine hmove _ ?_
      split <;> exact Nat.zero_le _
  | drops hstage =>
      refine hmove _ ?_
      split <;> exact Nat.zero_le _
  | finishes hstage =>
      refine hmove _ ?_
      split <;> exact Nat.zero_le _
  | _ => exact hmove _ (Nat.zero_le _)

omit [Fintype T] in
/-- A frame that is changed elsewhere than in its count. -/
theorem count_update {frames : T → Frame} {o : T} {f : Frame} (hcount : f.count = (frames o).count)
    (u : T) : (Function.update frames o f u).count = (frames u).count := by
  by_cases hu : u = o
  · subst hu
    rw [Function.update_self, hcount]
  · rw [Function.update_of_ne hu]

theorem Inv.step_stored {limit : Nat} {s s' : State T} {t : T} (hstep : Step limit s t s')
    (h : Inv limit s) {u o : T} {count : Nat} (hu : (s'.members u).stage = .storing o count) :
    count = (s'.frames o).count := by
  have hsingle := h.single
  -- the others that store a count
  have hother : ∀ c : Member T, c.stage ≠ .storing o count →
      (Function.update s.members t c u).stage = .storing o count →
        u ≠ t ∧ (s.members u).stage = .storing o count := by
    intro c hc hstage
    by_cases hut : u = t
    · subst hut
      rw [Function.update_self] at hstage
      exact absurd hstage hc
    · rw [Function.update_of_ne hut] at hstage
      exact ⟨hut, hstage⟩
  -- none of them when this one is in the critical section
  have halone : u ≠ t → (s.members u).stage = .storing o count →
      (s.members t).stage.critical = 1 → False := by
    intro hut hstage hcritical
    have htwo := add_le_total (fun c : Member T => c.stage.critical) s.members hut
    rw [hstage, hcritical] at htwo
    exact absurd (Nat.le_trans htwo hsingle) (by simp)
  cases hstep with
  | enters hstage hfree =>
      obtain ⟨-, hold⟩ := hother _ (by cases s.inst <;> simp [Member.go]) hu
      exact h.stored u o count hold
  | opens hstage =>
      obtain ⟨hut, hold⟩ := hother _ (by simp [Member.go]) hu
      exact (halone hut hold (by rw [hstage]; rfl)).elim
  | @loads o' hstage =>
      by_cases hut : u = t
      · subst hut
        simp [Member.go] at hu
        obtain ⟨rfl, rfl⟩ := hu
        rfl
      · dsimp only at hu ⊢
        rw [Function.update_of_ne hut] at hu
        exact h.stored u o count hu
  | stores hstage =>
      obtain ⟨hut, hold⟩ := hother _ (by split <;> simp [Member.go]) hu
      exact (halone hut hold (by rw [hstage]; rfl)).elim
  | clears hstage =>
      obtain ⟨hut, hold⟩ := hother _ (by simp [Member.go]) hu
      exact (halone hut hold (by rw [hstage]; rfl)).elim
  | @publishes o' hstage =>
      obtain ⟨-, hold⟩ := hother _ (by simp [Member.go]) hu
      rw [h.stored u o count hold]
      refine (count_update ?_ o).symm
      rfl
  | passes hstage =>
      obtain ⟨-, hold⟩ := hother _ (by simp [Member.go]) hu
      exact h.stored u o count hold
  | @drops o' hstage =>
      obtain ⟨-, hold⟩ := hother _ (by split <;> simp [Member.go, Member.returned]) hu
      have hne : o ≠ o' := by
        rintro rfl
        have hpos : 0 < sumOf (Stage.lates o) s.members :=
          sumOf_pos_of (t := t) (by rw [hstage]; simp)
        exact absurd (h.inst_of_storing hold).2 (Nat.pos_iff_ne_zero.mp hpos)
      dsimp only
      rw [Function.update_of_ne hne]
      exact h.stored u o count hold
  | @finishes o' hstage =>
      obtain ⟨-, hold⟩ := hother _ (by split <;> simp [Member.go, Member.returned]) hu
      rw [h.stored u o count hold]
      refine (count_update ?_ o).symm
      rfl
  | returns hstage =>
      obtain ⟨-, hold⟩ := hother _ (by simp [Member.returned]) hu
      exact h.stored u o count hold
  | owns hstage =>
      obtain ⟨-, hold⟩ := hother _ (by simp [Member.go]) hu
      rw [h.stored u o count hold]
      refine (count_update ?_ o).symm
      rfl
  | leaves hstage =>
      obtain ⟨-, hold⟩ := hother _ (by simp [Member.returned]) hu
      exact h.stored u o count hold

omit [Fintype T] [DecidableEq T] in
theorem State.arrivals_congr {s : State T} {frames : T → Frame}
    (hcount : ∀ o, s.inst = some o → (frames o).count = (s.frames o).count) :
    (⟨s.inst, frames, s.members⟩ : State T).arrivals = s.arrivals := by
  unfold State.arrivals
  cases hinst : s.inst with
  | none => rfl
  | some o =>
      show (frames o).count + 1 = (s.frames o).count + 1
      rw [hcount o hinst]

/-- What a move adds to the arrivals, and to the rounds that have an owner. -/
theorem arrivals_move (members : T → Member T) (t : T) (c : Member T) :
    total Member.returns (Function.update members t c) +
        sumOf Stage.inside (Function.update members t c) +
        ((members t).returns + (members t).stage.inside) =
      total Member.returns members + sumOf Stage.inside members + (c.returns + c.stage.inside) ∧
    total Member.serials (Function.update members t c) +
        sumOf Stage.owning (Function.update members t c) +
        ((members t).serials + (members t).stage.owning) =
      total Member.serials members + sumOf Stage.owning members +
        (c.serials + c.stage.owning) := by
  have hreturns := total_update Member.returns members t c
  have hinside := sumOf_update Stage.inside members t c
  have hserials := total_update Member.serials members t c
  have howning := sumOf_update Stage.owning members t c
  exact ⟨by omega, by omega⟩

/-- What a step adds to the arrivals and the returns. -/
theorem Inv.step_rounds {limit : Nat} {s s' : State T} {t : T} (hstep : Step limit s t s')
    (h : Inv limit s) : ∃ k, total Member.returns s'.members + sumOf Stage.inside s'.members =
      (limit + 1) * k + s'.arrivals ∧
    total Member.serials s'.members + sumOf Stage.owning s'.members =
      k + s'.inst.toList.length := by
  obtain ⟨k, harrived, hserials⟩ := h.rounds
  -- the thread has as many arrivals and rounds as before
  have hsame : ∀ (inst : Option T) (frames : T → Frame) (c : Member T),
      inst = s.inst → (⟨inst, frames, s.members⟩ : State T).arrivals = s.arrivals →
      c.returns + c.stage.inside = (s.members t).returns + (s.members t).stage.inside →
      c.serials + c.stage.owning = (s.members t).serials + (s.members t).stage.owning →
      ∃ k, total Member.returns (Function.update s.members t c) +
          sumOf Stage.inside (Function.update s.members t c) =
            (limit + 1) * k + (⟨inst, frames, s.members⟩ : State T).arrivals ∧
        total Member.serials (Function.update s.members t c) +
          sumOf Stage.owning (Function.update s.members t c) = k + inst.toList.length := by
    rintro inst frames c rfl harrivals hreturns howning
    obtain ⟨harrives, howns⟩ := arrivals_move s.members t c
    exact ⟨k, by omega, by omega⟩
  cases hstep with
  | enters hstage hfree =>
      refine hsame _ _ _ rfl rfl ?_ ?_ <;> rw [hstage] <;> cases s.inst <;> rfl
  | opens hstage =>
      have hnone := h.setting (sumOf_pos_of (t := t) (by rw [hstage]; rfl))
      obtain ⟨harrives, howns⟩ := arrivals_move s.members t ((s.members t).go .owner)
      rw [hstage] at harrives howns
      simp [Member.go] at harrives howns
      unfold State.arrivals at harrived
      rw [hnone] at harrived hserials
      simp [State.arrivals] at harrived hserials ⊢
      exact ⟨k, by simp [Member.go]; omega, by simp [Member.go]; omega⟩
  | loads hstage => exact hsame _ _ _ rfl rfl (by rw [hstage]; rfl) (by rw [hstage]; rfl)
  | @stores o count hstage =>
      obtain ⟨hinst, -⟩ := h.inst_of_storing hstage
      obtain rfl := h.stored t o count hstage
      have hstays : ∀ stage : Stage T, stage.inside = 1 → stage.owning = 0 →
          total Member.returns (Function.update s.members t ((s.members t).go stage)) +
              sumOf Stage.inside (Function.update s.members t ((s.members t).go stage)) =
            total Member.returns s.members + sumOf Stage.inside s.members + 1 ∧
          total Member.serials (Function.update s.members t ((s.members t).go stage)) +
              sumOf Stage.owning (Function.update s.members t ((s.members t).go stage)) =
            total Member.serials s.members + sumOf Stage.owning s.members := by
        intro stage hinside howning
        obtain ⟨harrives, howns⟩ := arrivals_move s.members t ((s.members t).go stage)
        rw [hstage] at harrives howns
        simp only [Member.go, hinside, howning] at harrives howns ⊢
        simp only [Stage.inside, Stage.owning] at harrives howns
        exact ⟨by omega, by omega⟩
      obtain ⟨harrives, howns⟩ := hstays
        (if (s.frames o).count + 1 = limit then .clearing o else .middle o)
        (by split <;> rfl) (by split <;> rfl)
      unfold State.arrivals at harrived ⊢
      rw [hinst] at harrived hserials
      refine ⟨k, ?_, by dsimp only; rw [howns, hserials, hinst]⟩
      dsimp only
      rw [harrives, harrived, hinst]
      simp
      omega
  | @clears o hstage =>
      have hinst := h.inst_of_clearing hstage
      have hsound := h.sound o
      unfold State.Sound at hsound
      have hfull :=
        (hsound.opened_of_clearing (sumOf_pos_of (t := t) (by rw [hstage]; simp))).2.2
      obtain ⟨harrives, howns⟩ := arrivals_move s.members t ((s.members t).go (.closing o))
      rw [hstage] at harrives howns
      unfold State.arrivals at harrived
      rw [hinst] at harrived hserials
      simp [Member.go] at harrives howns harrived hserials
      refine ⟨k + 1, ?_, ?_⟩
      · rw [Nat.mul_succ]
        simp [State.arrivals, Member.go]
        omega
      · simp [Member.go]
        omega
  | publishes hstage =>
      refine hsame _ _ _ rfl (State.arrivals_congr fun o _ => count_update ?_ o)
        (by rw [hstage]; rfl) (by rw [hstage]; rfl)
      rfl
  | passes hstage => exact hsame _ _ _ rfl rfl (by rw [hstage]; rfl) (by rw [hstage]; rfl)
  | drops hstage =>
      refine hsame _ _ _ rfl (State.arrivals_congr fun v hv => ?_) ?_ ?_
      · rw [Function.update_of_ne]
        rintro rfl
        exact h.inst_of_late hstage hv
      · rw [hstage]
        split <;> simp [Member.go, Member.returned]
      · rw [hstage]
        split <;> simp [Member.go, Member.returned]
  | finishes hstage =>
      refine hsame _ _ _ rfl (State.arrivals_congr fun o _ => count_update ?_ o) ?_ ?_
      · rfl
      · rw [hstage]
        split <;> simp [Member.go, Member.returned]
      · rw [hstage]
        split <;> simp [Member.go, Member.returned]
  | returns hstage => exact hsame _ _ _ rfl rfl (by rw [hstage]; rfl) (by rw [hstage]; rfl)
  | owns hstage =>
      refine hsame _ _ _ rfl (State.arrivals_congr fun o _ => count_update ?_ o)
        (by rw [hstage]; rfl) (by rw [hstage]; rfl)
      rfl
  | leaves hstage => exact hsame _ _ _ rfl rfl (by rw [hstage]; rfl) (by rw [hstage]; rfl)

/-- Every step keeps the invariant. -/
theorem Inv.step {limit : Nat} {s s' : State T} {t : T} (hlimit : 0 < limit)
    (hbound : limit < 0x100000000) (hstep : Step limit s t s') (h : Inv limit s) :
    Inv limit s' where
  single := h.step_single hstep
  setting := h.step_setting hstep
  sound := h.step_sound hlimit hbound hstep
  stored _ _ _ hu := h.step_stored hstep hu
  rounds := h.step_rounds hstep

/-- The threads of the open round are still inside. -/
theorem Inv.arrivals_le {limit : Nat} {s : State T} (h : Inv limit s) :
    s.arrivals ≤ sumOf Stage.inside s.members := by
  unfold State.arrivals
  cases hinst : s.inst with
  | none => exact Nat.zero_le _
  | some o =>
      have hsound := h.sound o
      unfold State.Sound at hsound
      rw [if_pos hinst] at hsound
      have hparts : sumOf Stage.owning s.members + (sumOf (Stage.clears o) s.members +
          sumOf (Stage.mids o) s.members) ≤ sumOf Stage.inside s.members := by
        rw [← total_add, ← total_add]
        refine Finset.sum_le_sum fun t _ => ?_
        dsimp only
        cases (s.members t).stage <;> simp <;> split <;> simp
      have howner := le_sumOf Stage.owning s.members o
      have hcount := hsound.count_of_opened
      show (s.frames o).count + 1 ≤ _
      omega

omit [Fintype T] [DecidableEq T] in
theorem Stage.inside_le (stage : Stage T) : stage.inside ≤ 1 := by cases stage <;> simp

omit [Fintype T] [DecidableEq T] in
theorem Stage.owning_le (stage : Stage T) : stage.owning ≤ stage.inside := by
  cases stage <;> simp

/-- The frame of the open round is in use. -/
theorem Inv.owning_of_inst {limit : Nat} {s : State T} (h : Inv limit s) {o : T}
    (hinst : s.inst = some o) : (s.members o).stage.owning = 1 := by
  have hsound := h.sound o
  unfold State.Sound at hsound
  rw [if_pos hinst] at hsound
  exact hsound.count_of_opened.1

section

variable {members : T → Member T} {o : T}
  (hplace : ∀ t, (members t).stage.inside = 1 → (members t).stage = .middle o ∨ t = o)
include hplace

/-! Where all that are inside wait in one round -/

theorem clears_of_rest (howner : (members o).stage.owning = 1) :
    sumOf (Stage.clears o) members = 0 := by
  refine Finset.sum_eq_zero fun t _ => ?_
  show (members t).stage.clears o = 0
  cases hstage : (members t).stage with
  | clearing o' =>
      rcases hplace t (by rw [hstage]; rfl) with hmiddle | rfl
      · rw [hstage] at hmiddle
        cases hmiddle
      · rw [hstage] at howner
        cases howner
  | _ => rfl

theorem inside_of_rest : sumOf Stage.inside members ≤ sumOf (Stage.mids o) members + 1 := by
  have hle : sumOf Stage.inside members ≤
      ∑ t, ((members t).stage.mids o + if t = o then 1 else 0) := by
    refine Finset.sum_le_sum fun t _ => ?_
    dsimp only
    have hone := Stage.inside_le (members t).stage
    rcases Nat.eq_zero_or_pos (members t).stage.inside with hzero | hpos
    · rw [hzero]
      exact Nat.zero_le _
    · rcases hplace t (by omega) with hmiddle | rfl
      · rw [hmiddle]
        simp
      · rw [if_pos rfl]
        omega
  rw [Finset.sum_add_distrib, Finset.sum_ite_eq' Finset.univ o, if_pos (Finset.mem_univ o)] at hle
  exact hle

theorem owning_of_rest : sumOf Stage.owning members ≤ 1 := by
  have hle : sumOf Stage.owning members ≤ ∑ t, if t = o then 1 else 0 := by
    refine Finset.sum_le_sum fun t _ => ?_
    dsimp only
    have hone := Stage.owning_le (members t).stage
    have hinside := Stage.inside_le (members t).stage
    rcases Nat.eq_zero_or_pos (members t).stage.owning with hzero | hpos
    · rw [hzero]
      exact Nat.zero_le _
    · rcases hplace t (by omega) with hmiddle | rfl
      · rw [hmiddle] at hpos
        cases hpos
      · rw [if_pos rfl]
        omega
  rwa [Finset.sum_ite_eq' Finset.univ o, if_pos (Finset.mem_univ o)] at hle

end

/-- Where all that are inside belong to the open round, the others have returned in full rounds
with one owner each, and the open round still takes a thread. -/
theorem Inv.rest {limit : Nat} {s : State T} (h : Inv limit s)
    (hrest : ∀ t, (s.members t).stage.inside = 1 →
      ∃ o, s.inst = some o ∧ ((s.members t).stage = .middle o ∨ t = o)) :
    total Member.returns s.members = (limit + 1) * total Member.serials s.members ∧
      sumOf Stage.inside s.members ≤ limit := by
  obtain ⟨k, harrived, hserials⟩ := h.rounds
  unfold State.arrivals at harrived
  cases hinst : s.inst with
  | none =>
      have hnone : ∀ t, (s.members t).stage.inside = 0 := by
        intro t
        have hone := Stage.inside_le (s.members t).stage
        by_contra hinside
        obtain ⟨o, hsome, -⟩ := hrest t (by omega)
        rw [hinst] at hsome
        cases hsome
      have hinside : sumOf Stage.inside s.members = 0 :=
        Finset.sum_eq_zero fun t _ => hnone t
      have howning : sumOf Stage.owning s.members = 0 :=
        Finset.sum_eq_zero fun t _ =>
          Nat.le_zero.mp ((Stage.owning_le (s.members t).stage).trans (hnone t).le)
      rw [hinst, hinside] at harrived
      rw [hinst, howning] at hserials
      obtain rfl : total Member.serials s.members = k := hserials
      exact ⟨harrived, by omega⟩
  | some o =>
      have hplace : ∀ t, (s.members t).stage.inside = 1 →
          (s.members t).stage = .middle o ∨ t = o := by
        intro t hinside
        obtain ⟨o', hsome, hplace⟩ := hrest t hinside
        rw [hinst] at hsome
        cases hsome
        exact hplace
      have howner := h.owning_of_inst hinst
      have hinside := inside_of_rest hplace
      have hone := owning_of_rest hplace
      have hle := le_sumOf Stage.owning s.members o
      have harrivals := h.arrivals_le
      have hsound := h.sound o
      unfold State.Sound at hsound
      rw [if_pos hinst, clears_of_rest hplace howner] at hsound
      obtain ⟨hcount, hlt⟩ := hsound.count_of_taking
      unfold State.arrivals at harrivals
      rw [hinst] at harrived harrivals hserials
      replace hserials : _ = k + 1 := hserials
      replace harrived : _ = (limit + 1) * k + ((s.frames o).count + 1) := harrived
      replace harrivals : (s.frames o).count + 1 ≤ _ := harrivals
      obtain rfl : total Member.serials s.members = k := by omega
      exact ⟨by omega, by omega⟩

end Rounds

end WasixLibc
