/-
What `pselect` leaves in the sets of its caller.

The sets are objects that the call first reads its subscriptions from, and then
writes its results to, through pointers of which the null ones are replaced by
a pointer to one and the same empty set.
-/
import Mathlib.Data.List.Perm.Subperm
import Mathlib.Logic.Function.Basic
import WasixLibc.DescriptorSet

namespace WasixLibc

namespace Select

/-- The three pointers to sets; a null pointer is `none`. -/
structure SetArguments where
  readfds : Option FdSet
  writefds : Option FdSet
  errorfds : Option FdSet

/-- The objects that the pointers point to. -/
inductive Place where
  | readSet
  | writeSet
  | errorSet
  | emptySet
deriving Repr, DecidableEq

abbrev Objects := Place → FdSet

/-- The objects when the call begins. -/
def SetArguments.objects (args : SetArguments) : Objects
  | .readSet => args.readfds.getD []
  | .writeSet => args.writefds.getD []
  | .errorSet => args.errorfds.getD []
  | .emptySet => []

/-- The sets of the caller, as they are in the objects. -/
def SetArguments.load (args : SetArguments) (objects : Objects) : SetArguments where
  readfds := args.readfds.map fun _ => objects .readSet
  writefds := args.writefds.map fun _ => objects .writeSet
  errorfds := args.errorfds.map fun _ => objects .errorSet

/-- Replace NULL pointers by the empty set. -/
def pointTo (arg : Option FdSet) (place : Place) : Place := if arg.isNone then .emptySet else place

@[simp] theorem pointTo_none (place : Place) : pointTo none place = .emptySet := rfl

@[simp] theorem pointTo_some (fds : FdSet) (place : Place) : pointTo (some fds) place = place := rfl

/-- An event sets its entry in the result set of its type. -/
def setEntry (readfds writefds : Place) (objects : Objects) (event : Event) : Objects :=
  match event.type with
  | .fdRead =>
      Function.update objects readfds (objects readfds ++ [event.userdata.setWidth 32])
  | .fdWrite =>
      Function.update objects writefds (objects writefds ++ [event.userdata.setWidth 32])
  | .clock => objects

/-- `pselect`, on the objects of its arguments. -/
def pselectObjects (pollOneoff : List Subscription → Except Errno (List Event)) (nfds : BitVec 32)
    (args : SetArguments) (timeout : Option Timespec) : Except Errno Nat × Objects :=
  let objects := args.objects
  if BitVec.slt nfds 0 then (.error EINVAL, objects)
  else if args.errorfds.isSome && decide ((objects .errorSet).length > 0) then
    (.error ENOSYS, objects)
  else
    let readfds := pointTo args.readfds .readSet
    let writefds := pointTo args.writefds .writeSet
    let fdSubscriptions := subscribe .fdRead nfds (objects readfds) ++
      subscribe .fdWrite nfds (objects writefds)
    let clocks : Option (List Subscription) :=
      match timeout with
      | none => some []
      | some timeout =>
          (timespecToTimestampClamp timeout).map
            (fun timestamp => [.clock 0 .realtime timestamp 0 0])
    match clocks with
    | none => (.error EINVAL, objects)
    | some clocks =>
        let subscriptions := fdSubscriptions ++ clocks
        match pollOneoff subscriptions with
        | .error error => (.error (if subscriptions.length = 0 then ENOTSUP else error), objects)
        | .ok events =>
            if events.any badFd then (.error EBADF, objects)
            else
              let objects := Function.update objects readfds (fdZero (objects readfds))
              let objects := Function.update objects writefds (fdZero (objects writefds))
              let objects := events.foldl (setEntry readfds writefds) objects
              (.ok ((objects readfds).length + (objects writefds).length), objects)

/-! The objects -/

section Objects

variable {readfds writefds place : Place} {objects : Objects} {events : List Event}

theorem readyFds_cons (type : EventType) (event : Event) (events : List Event) :
    readyFds type (event :: events) =
      (if event.type = type then [event.userdata.setWidth 32] else []) ++ readyFds type events := by
  unfold readyFds
  rw [List.filter_cons]
  split
  · rename_i htype
    rw [if_pos (of_decide_eq_true htype)]
    rfl
  · rename_i htype
    rw [if_neg fun h => htype (decide_eq_true h)]
    rfl

theorem setEntries_other (hread : place ≠ readfds) (hwrite : place ≠ writefds) :
    events.foldl (setEntry readfds writefds) objects place = objects place := by
  induction events generalizing objects with
  | nil => rfl
  | cons event events ih =>
      rw [List.foldl_cons, ih]
      cases htype : event.type with
      | fdRead =>
          simp only [setEntry, htype]
          exact Function.update_of_ne hread _ _
      | fdWrite =>
          simp only [setEntry, htype]
          exact Function.update_of_ne hwrite _ _
      | clock => simp only [setEntry, htype]

theorem setEntries_readfds (hne : readfds ≠ writefds) :
    events.foldl (setEntry readfds writefds) objects readfds =
      objects readfds ++ readyFds .fdRead events := by
  induction events generalizing objects with
  | nil => simp [readyFds]
  | cons event events ih =>
      rw [List.foldl_cons, ih, readyFds_cons]
      cases htype : event.type with
      | fdRead =>
          simp only [setEntry, htype, ↓reduceIte]
          rw [Function.update_self, List.append_assoc]
      | fdWrite =>
          simp only [setEntry, htype, reduceCtorEq, ↓reduceIte]
          rw [Function.update_of_ne hne, List.nil_append]
      | clock => simp only [setEntry, htype, reduceCtorEq, ↓reduceIte, List.nil_append]

theorem setEntries_writefds (hne : readfds ≠ writefds) :
    events.foldl (setEntry readfds writefds) objects writefds =
      objects writefds ++ readyFds .fdWrite events := by
  induction events generalizing objects with
  | nil => simp [readyFds]
  | cons event events ih =>
      rw [List.foldl_cons, ih, readyFds_cons]
      cases htype : event.type with
      | fdRead =>
          simp only [setEntry, htype, reduceCtorEq, ↓reduceIte]
          rw [Function.update_of_ne hne.symm, List.nil_append]
      | fdWrite =>
          simp only [setEntry, htype, ↓reduceIte]
          rw [Function.update_self, List.append_assoc]
      | clock => simp only [setEntry, htype, reduceCtorEq, ↓reduceIte, List.nil_append]

/-- Both pointers are the same. -/
theorem length_setEntries_shared :
    (events.foldl (setEntry place place) objects place).length =
      (objects place).length +
        ((readyFds .fdRead events).length + (readyFds .fdWrite events).length) := by
  induction events generalizing objects with
  | nil => simp [readyFds]
  | cons event events ih =>
      rw [List.foldl_cons, ih, readyFds_cons, readyFds_cons, List.length_append, List.length_append]
      cases htype : event.type with
      | fdRead | fdWrite =>
          simp only [setEntry, htype, reduceCtorEq, ↓reduceIte, Function.update_self,
            List.length_append, List.length_singleton, List.length_nil]
          omega
      | clock =>
          simp only [setEntry, htype, reduceCtorEq, ↓reduceIte, List.length_nil, Nat.zero_add]

/-- The objects when both pointers have their own result. -/
theorem setEntries_cleared (hne : readfds ≠ writefds) :
    let cleared := Function.update (Function.update objects readfds []) writefds []
    events.foldl (setEntry readfds writefds) cleared readfds = readyFds .fdRead events ∧
      events.foldl (setEntry readfds writefds) cleared writefds = readyFds .fdWrite events := by
  constructor
  · rw [setEntries_readfds hne, Function.update_of_ne hne, Function.update_self, List.nil_append]
  · rw [setEntries_writefds hne, Function.update_self, List.nil_append]

theorem setEntries_kept (hread : place ≠ readfds) (hwrite : place ≠ writefds) :
    events.foldl (setEntry readfds writefds)
      (Function.update (Function.update objects readfds []) writefds []) place = objects place := by
  rw [setEntries_other hread hwrite, Function.update_of_ne hwrite, Function.update_of_ne hread]

end Objects

/-! What becomes of the sets -/

theorem load_objects (args : SetArguments) : args.load args.objects = args := by
  obtain ⟨readfds, writefds, errorfds⟩ := args
  cases readfds <;> cases writefds <;> cases errorfds <;> rfl

/-- The sets after a call with a result. -/
def SetArguments.returned (args : SetArguments) : Except Errno (Nat × FdSet × FdSet) → SetArguments
  | .error _ => args
  | .ok (_, reads, writes) =>
      { args with
        readfds := args.readfds.map fun _ => reads
        writefds := args.writefds.map fun _ => writes }

/-- The objects after the results have been written to them. -/
theorem load_setEntries (args : SetArguments) (events : List Event) :
    let readfds := pointTo args.readfds .readSet
    let writefds := pointTo args.writefds .writeSet
    let cleared := Function.update (Function.update args.objects readfds []) writefds []
    let objects := events.foldl (setEntry readfds writefds) cleared
    let reads := readyFds .fdRead events
    let writes := readyFds .fdWrite events
    let shared := if args.readfds.isNone && args.writefds.isNone then 2 else 1
    (objects readfds).length + (objects writefds).length = shared * (reads.length + writes.length) ∧
      args.load objects = args.returned (.ok (0, reads, writes)) := by
  obtain ⟨readfds, writefds, errorfds⟩ := args
  have herror : ∀ {r w : Place} {objects : Objects}, Place.errorSet ≠ r → Place.errorSet ≠ w →
      objects .errorSet = errorfds.getD [] →
      (errorfds.map fun _ => events.foldl (setEntry r w)
        (Function.update (Function.update objects r []) w []) .errorSet) = errorfds := by
    intro r w objects hr hw hstart
    cases errorfds with
    | none => rfl
    | some errorfds =>
        rw [Option.map_some, setEntries_kept hr hw, hstart]
        rfl
  cases readfds with
  | none =>
      cases writefds with
      | none =>
          simp only [pointTo_none, SetArguments.load, SetArguments.returned, Option.map_none,
            Option.isNone_none, Bool.and_self, ↓reduceIte]
          rw [herror (by decide) (by decide) rfl, length_setEntries_shared, Function.update_self]
          refine ⟨?_, rfl⟩
          rw [List.length_nil]
          omega
      | some writefds =>
          obtain ⟨hreads, hwrites⟩ := @setEntries_cleared .emptySet .writeSet
            (SetArguments.objects ⟨none, some writefds, errorfds⟩) events (by decide)
          simp only [pointTo_none, pointTo_some, SetArguments.load, SetArguments.returned,
            Option.map_none, Option.map_some, Option.isNone_none, Option.isNone_some,
            Bool.and_false, Bool.false_eq_true, ↓reduceIte]
          rw [herror (by decide) (by decide) rfl, hreads, hwrites, Nat.one_mul]
          exact ⟨rfl, rfl⟩
  | some readfds =>
      cases writefds with
      | none =>
          obtain ⟨hreads, hwrites⟩ := @setEntries_cleared .readSet .emptySet
            (SetArguments.objects ⟨some readfds, none, errorfds⟩) events (by decide)
          simp only [pointTo_none, pointTo_some, SetArguments.load, SetArguments.returned,
            Option.map_none, Option.map_some, Option.isNone_none, Option.isNone_some,
            Bool.false_and, Bool.false_eq_true, ↓reduceIte]
          rw [herror (by decide) (by decide) rfl, hreads, hwrites, Nat.one_mul]
          exact ⟨rfl, rfl⟩
      | some writefds =>
          obtain ⟨hreads, hwrites⟩ := @setEntries_cleared .readSet .writeSet
            (SetArguments.objects ⟨some readfds, some writefds, errorfds⟩) events (by decide)
          simp only [pointTo_some, SetArguments.load, SetArguments.returned,
            Option.map_some, Option.isNone_some, Bool.false_and, Bool.false_eq_true, ↓reduceIte]
          rw [herror (by decide) (by decide) rfl, hreads, hwrites, Nat.one_mul]
          exact ⟨rfl, rfl⟩

/-- The sets that are returned are the ones of the call on lists. -/
theorem pselectObjects_eq (pollOneoff : List Subscription → Except Errno (List Event))
    (nfds : BitVec 32) (args : SetArguments) (timeout : Option Timespec) :
    let polled := pselect pollOneoff nfds args.readfds args.writefds args.errorfds timeout
    (pselectObjects pollOneoff nfds args timeout).1 = polled.result.map (·.1) ∧
      args.load (pselectObjects pollOneoff nfds args timeout).2 = args.returned polled.result := by
  have hread : args.objects (pointTo args.readfds .readSet) = args.readfds.getD [] := by
    cases hargs : args.readfds with
    | none => rfl
    | some fds => simp [SetArguments.objects, hargs]
  have hwrite : args.objects (pointTo args.writefds .writeSet) = args.writefds.getD [] := by
    cases hargs : args.writefds with
    | none => rfl
    | some fds => simp [SetArguments.objects, hargs]
  have herror : (args.errorfds.isSome && decide ((args.objects .errorSet).length > 0)) =
      decide ((args.errorfds.getD []).length > 0) := by
    cases hargs : args.errorfds with
    | none => rfl
    | some fds => simp [SetArguments.objects, hargs]
  unfold pselectObjects pselect
  simp only [hread, hwrite, herror, fdZero, decide_eq_true_eq]
  split
  · exact ⟨rfl, load_objects args⟩
  split
  · exact ⟨rfl, load_objects args⟩
  cases timeout with
  | none =>
      dsimp only
      cases pollOneoff (subscribe .fdRead nfds (args.readfds.getD []) ++
        subscribe .fdWrite nfds (args.writefds.getD []) ++ []) with
      | error error => exact ⟨rfl, load_objects args⟩
      | ok events =>
          dsimp only
          split
          · exact ⟨rfl, load_objects args⟩
          · obtain ⟨hcount, hload⟩ := load_setEntries args events
            exact ⟨congrArg Except.ok hcount, hload⟩
  | some timeout =>
      dsimp only
      cases timespecToTimestampClamp timeout with
      | none => exact ⟨rfl, load_objects args⟩
      | some timestamp =>
          dsimp only [Option.map_some]
          cases pollOneoff (subscribe .fdRead nfds (args.readfds.getD []) ++
            subscribe .fdWrite nfds (args.writefds.getD []) ++
              [.clock 0 .realtime timestamp 0 0]) with
          | error error => exact ⟨rfl, load_objects args⟩
          | ok events =>
              dsimp only
              split
              · exact ⟨rfl, load_objects args⟩
              · obtain ⟨hcount, hload⟩ := load_setEntries args events
                exact ⟨congrArg Except.ok hcount, hload⟩

/-! What the host gives -/

def Subscription.userdata : Subscription → BitVec 64
  | .fdRead userdata _ | .fdWrite userdata _ | .clock userdata .. => userdata

def Subscription.type : Subscription → EventType
  | .fdRead .. => .fdRead
  | .fdWrite .. => .fdWrite
  | .clock .. => .clock

/-- The event is one of a subscription. -/
def Event.DrawnFrom (event : Event) (subscriptions : List Subscription) : Prop :=
  ∃ subscription ∈ subscriptions, event.userdata = subscription.userdata ∧
    event.type = subscription.type

/-- The host returns events of the subscriptions it is given, each of them at
most once. -/
def Answers (pollOneoff : List Subscription → Except Errno (List Event)) (nfds : BitVec 32)
    (args : SetArguments) (timeout : Option Timespec) : Prop :=
  ∀ given events,
    (pselect pollOneoff nfds args.readfds args.writefds args.errorfds timeout).subscriptions =
      some given →
    pollOneoff given = .ok events →
    (∀ event ∈ events, event.DrawnFrom given) ∧
      (events.map fun event => (event.userdata, event.type)).Nodup

/-! What the caller gets -/

/-- One result set, beside the set it was made from. -/
structure ReadySet (type : EventType) (nfds : BitVec 32) (events : List Event)
    (arg arg' : Option FdSet) : Prop where
  null : arg'.isSome = arg.isSome
  nodup : ∀ fds', arg' = some fds' → fds'.Nodup
  fits : ∀ fds', arg' = some fds' → fds'.length ≤ FD_SETSIZE
  subset : ∀ fds fds', arg = some fds → arg' = some fds' →
    ∀ fd ∈ fds', fd ∈ fds ∧ BitVec.slt fd nfds = true
  ready : ∀ fds', arg' = some fds' → ∀ fd, fdIsset fd fds' = true ↔
    ∃ event ∈ events, event.type = type ∧ event.userdata = fd.signExtend 64

theorem setWidth_signExtend (fd : BitVec 32) : (fd.signExtend 64).setWidth 32 = fd := by
  apply BitVec.eq_of_getLsbD_eq
  intro i hi
  simp [BitVec.getLsbD_signExtend, hi]
  omega

section Contract

variable {pollOneoff : List Subscription → Except Errno (List Event)} {nfds : BitVec 32}
variable {args : SetArguments} {timeout : Option Timespec} {events : List Event}

/-- The end of `pselect`, when it has made its subscriptions. -/
def polled (pollOneoff : List Subscription → Except Errno (List Event))
    (readfds writefds : Option FdSet) (subscriptions : List Subscription) : Polled :=
  match pollOneoff subscriptions with
  | .error error =>
      ⟨some subscriptions, .error (if subscriptions.length = 0 then ENOTSUP else error)⟩
  | .ok events =>
      if events.any badFd then ⟨some subscriptions, .error EBADF⟩
      else
        let reads := readyFds .fdRead events
        let writes := readyFds .fdWrite events
        let shared := if readfds.isNone && writefds.isNone then 2 else 1
        ⟨some subscriptions, .ok (shared * (reads.length + writes.length), reads, writes)⟩

/-- A call fails before it asks the host, or asks it for the descriptors and
for nothing else but a timeout. -/
theorem pselect_cases (pollOneoff : List Subscription → Except Errno (List Event))
    (nfds : BitVec 32) (readfds writefds errorfds : Option FdSet) (timeout : Option Timespec) :
    (∃ error, pselect pollOneoff nfds readfds writefds errorfds timeout = ⟨none, .error error⟩) ∨
    errorfds.getD [] = [] ∧ ∃ clocks, (∀ subscription ∈ clocks, subscription.type = .clock) ∧
      pselect pollOneoff nfds readfds writefds errorfds timeout =
        polled pollOneoff readfds writefds (subscribe .fdRead nfds (readfds.getD []) ++
          subscribe .fdWrite nfds (writefds.getD []) ++ clocks) := by
  unfold pselect
  split
  · exact .inl ⟨_, rfl⟩
  split
  · exact .inl ⟨_, rfl⟩
  · rename_i herror
    have hempty : errorfds.getD [] = [] := List.length_eq_zero_iff.mp (by omega)
    cases timeout with
    | none => exact .inr ⟨hempty, [], nofun, rfl⟩
    | some timeout =>
        dsimp only
        cases timespecToTimestampClamp timeout with
        | none => exact .inl ⟨_, rfl⟩
        | some timestamp =>
            refine .inr ⟨hempty, [.clock 0 .realtime timestamp 0 0], ?_, rfl⟩
            intro subscription hmem
            rw [List.mem_singleton.mp hmem]
            rfl

/-- A call that succeeds. -/
theorem pselect_ok {readfds writefds errorfds : Option FdSet} {n : Nat} {reads writes : FdSet}
    (h : (pselect pollOneoff nfds readfds writefds errorfds timeout).result =
      .ok (n, reads, writes)) :
    errorfds.getD [] = [] ∧ ∃ clocks events,
      (∀ subscription ∈ clocks, subscription.type = .clock) ∧
      (pselect pollOneoff nfds readfds writefds errorfds timeout).subscriptions =
        some (subscribe .fdRead nfds (readfds.getD []) ++
          subscribe .fdWrite nfds (writefds.getD []) ++ clocks) ∧
      pollOneoff (subscribe .fdRead nfds (readfds.getD []) ++
          subscribe .fdWrite nfds (writefds.getD []) ++ clocks) = .ok events ∧
      reads = readyFds .fdRead events ∧ writes = readyFds .fdWrite events ∧
      n = (if readfds.isNone && writefds.isNone then 2 else 1) *
        (reads.length + writes.length) := by
  obtain ⟨error, hpselect⟩ | ⟨hempty, clocks, hclocks, hpselect⟩ :=
    pselect_cases pollOneoff nfds readfds writefds errorfds timeout
  · rw [hpselect] at h
    cases h
  · rw [hpselect] at h ⊢
    refine ⟨hempty, clocks, ?_⟩
    generalize subscribe .fdRead nfds (readfds.getD []) ++
      subscribe .fdWrite nfds (writefds.getD []) ++ clocks = given at h
    unfold polled at h ⊢
    cases hevents : pollOneoff given with
    | error error =>
        rw [hevents] at h
        cases h
    | ok events =>
        simp only [hevents] at h ⊢
        split at h
        · cases h
        · rename_i hbad
          cases h
          rw [if_neg hbad]
          exact ⟨events, hclocks, rfl, rfl, rfl, rfl, rfl⟩

/-- The subscriptions of one set. -/
theorem mem_subscribe {kind : BitVec 64 → BitVec 32 → Subscription} {fds : FdSet}
    {subscription : Subscription} (h : subscription ∈ subscribe kind nfds fds) :
    ∃ fd ∈ fds, BitVec.slt fd nfds = true ∧ subscription = kind (fd.signExtend 64) fd := by
  obtain ⟨fd, hfd, rfl⟩ := List.mem_map.mp h
  obtain ⟨hmem, hlt⟩ := List.mem_filter.mp hfd
  exact ⟨fd, hmem, hlt, rfl⟩

/-- The events of one type are events of descriptors of one set. -/
theorem mem_readyFds {type : EventType} {fd : BitVec 32} :
    fd ∈ readyFds type events ↔
      ∃ event ∈ events, event.type = type ∧ event.userdata.setWidth 32 = fd := by
  unfold readyFds
  simp only [List.mem_map, List.mem_filter, decide_eq_true_eq]
  constructor
  · rintro ⟨event, ⟨hmem, htype⟩, hfd⟩
    exact ⟨event, hmem, htype, hfd⟩
  · rintro ⟨event, hmem, htype, hfd⟩
    exact ⟨event, ⟨hmem, htype⟩, hfd⟩

/-- What the events of one type make of a set. -/
theorem readySet_of_drawn {type : EventType} {arg : Option FdSet}
    (hdrawn : ∀ event ∈ events, event.type = type →
      ∃ fd ∈ arg.getD [], BitVec.slt fd nfds = true ∧ event.userdata = fd.signExtend 64)
    (honce : (events.map fun event => (event.userdata, event.type)).Nodup)
    (hfits : (arg.getD []).length ≤ FD_SETSIZE) :
    ReadySet type nfds events arg (arg.map fun _ => readyFds type events) := by
  have hmem : ∀ fd ∈ readyFds type events, fd ∈ arg.getD [] ∧ BitVec.slt fd nfds = true := by
    intro fd hfd
    obtain ⟨event, hevent, htype, rfl⟩ := mem_readyFds.mp hfd
    obtain ⟨fd, hfd, hlt, huserdata⟩ := hdrawn event hevent htype
    rw [huserdata, setWidth_signExtend]
    exact ⟨hfd, hlt⟩
  have hnodup : (readyFds type events).Nodup := by
    apply List.Nodup.map_on
    · intro event hevent event' hevent' heq
      obtain ⟨hmem, htype⟩ := List.mem_filter.mp hevent
      obtain ⟨hmem', htype'⟩ := List.mem_filter.mp hevent'
      obtain ⟨fd, -, -, huserdata⟩ := hdrawn event hmem (of_decide_eq_true htype)
      obtain ⟨fd', -, -, huserdata'⟩ := hdrawn event' hmem' (of_decide_eq_true htype')
      rw [huserdata, huserdata', setWidth_signExtend, setWidth_signExtend] at heq
      apply List.inj_on_of_nodup_map honce hmem hmem'
      rw [huserdata, huserdata', heq, of_decide_eq_true htype, of_decide_eq_true htype']
    · exact honce.of_map.filter _
  refine ⟨by rw [Option.isSome_map], ?_, ?_, ?_, ?_⟩
  · intro fds' hfds'
    obtain ⟨_, -, rfl⟩ := Option.map_eq_some_iff.mp hfds'
    exact hnodup
  · intro fds' hfds'
    obtain ⟨_, -, rfl⟩ := Option.map_eq_some_iff.mp hfds'
    have hsubset : readyFds type events ⊆ arg.getD [] := fun fd hfd => (hmem fd hfd).1
    exact Nat.le_trans (List.subperm_of_subset hnodup hsubset).length_le hfits
  · intro fds fds' hfds hfds' fd hfd
    obtain ⟨_, -, rfl⟩ := Option.map_eq_some_iff.mp hfds'
    rw [hfds] at hmem
    exact hmem fd hfd
  · intro fds' hfds' fd
    obtain ⟨_, -, rfl⟩ := Option.map_eq_some_iff.mp hfds'
    rw [fdIsset_iff, mem_readyFds]
    constructor
    · rintro ⟨event, hevent, htype, rfl⟩
      obtain ⟨fd, -, -, huserdata⟩ := hdrawn event hevent htype
      refine ⟨event, hevent, htype, ?_⟩
      rw [huserdata, setWidth_signExtend]
    · rintro ⟨event, hevent, htype, huserdata⟩
      refine ⟨event, hevent, htype, ?_⟩
      rw [huserdata, setWidth_signExtend]

/-- An event is one of the readable descriptors, of the writable ones, or of the
timeout. -/
theorem drawn_cases {event : Event} {reads writes : FdSet} {clocks : List Subscription}
    (hclocks : ∀ subscription ∈ clocks, subscription.type = .clock)
    (h : event.DrawnFrom
      (subscribe .fdRead nfds reads ++ subscribe .fdWrite nfds writes ++ clocks)) :
    (event.type = .fdRead ∧
      ∃ fd ∈ reads, BitVec.slt fd nfds = true ∧ event.userdata = fd.signExtend 64) ∨
    (event.type = .fdWrite ∧
      ∃ fd ∈ writes, BitVec.slt fd nfds = true ∧ event.userdata = fd.signExtend 64) ∨
    event.type = .clock := by
  obtain ⟨subscription, hmem, huserdata, htype⟩ := h
  obtain hmem | hmem := List.mem_append.mp hmem
  · obtain hmem | hmem := List.mem_append.mp hmem
    · obtain ⟨fd, hfd, hlt, rfl⟩ := mem_subscribe hmem
      exact .inl ⟨htype, fd, hfd, hlt, huserdata⟩
    · obtain ⟨fd, hfd, hlt, rfl⟩ := mem_subscribe hmem
      exact .inr (.inl ⟨htype, fd, hfd, hlt, huserdata⟩)
  · exact .inr (.inr (htype.trans (hclocks subscription hmem)))

/-- There are no events for a set that is not there. -/
theorem readyFds_none {type : EventType}
    (hdrawn : ∀ event ∈ events, event.type = type →
      ∃ fd ∈ (none : Option FdSet).getD [], BitVec.slt fd nfds = true ∧
        event.userdata = fd.signExtend 64) :
    readyFds type events = [] := by
  rw [List.eq_nil_iff_forall_not_mem]
  intro fd hfd
  obtain ⟨event, hevent, htype, -⟩ := mem_readyFds.mp hfd
  obtain ⟨fd, hfd, -⟩ := hdrawn event hevent htype
  cases hfd

/-- The pointers to the sets of a caller. -/
def pointers (readfds writefds errorfds : Option DescriptorSet) : SetArguments where
  readfds := readfds.map DescriptorSet.fds
  writefds := writefds.map DescriptorSet.fds
  errorfds := errorfds.map DescriptorSet.fds

theorem fits_of_set (set : Option DescriptorSet) :
    ((set.map DescriptorSet.fds).getD []).length ≤ FD_SETSIZE := by
  cases set with
  | none => exact Nat.zero_le _
  | some set => exact set.length_le

/-- The sizes of the sets that are there. -/
def sizes (args : SetArguments) : Nat :=
  (args.readfds.getD []).length + (args.writefds.getD []).length + (args.errorfds.getD []).length

/-- The count is doubled only where both sets are null, and then it is zero. -/
theorem sizes_returned (args : SetArguments) (n : Nat) (hempty : args.errorfds.getD [] = [])
    (hreads : ∀ event ∈ events, event.type = .fdRead → ∃ fd ∈ args.readfds.getD [],
      BitVec.slt fd nfds = true ∧ event.userdata = fd.signExtend 64)
    (hwrites : ∀ event ∈ events, event.type = .fdWrite → ∃ fd ∈ args.writefds.getD [],
      BitVec.slt fd nfds = true ∧ event.userdata = fd.signExtend 64) :
    (if args.readfds.isNone && args.writefds.isNone then 2 else 1) *
        ((readyFds .fdRead events).length + (readyFds .fdWrite events).length) =
      sizes (args.returned (.ok (n, readyFds .fdRead events, readyFds .fdWrite events))) := by
  simp only [sizes, SetArguments.returned, hempty, List.length_nil, Nat.add_zero]
  cases hread : args.readfds with
  | none =>
      rw [hread] at hreads
      rw [readyFds_none hreads]
      cases hwrite : args.writefds with
      | none =>
          rw [hwrite] at hwrites
          rw [readyFds_none hwrites]
          rfl
      | some fds => simp
  | some fds =>
      cases hwrite : args.writefds with
      | none =>
          rw [hwrite] at hwrites
          rw [readyFds_none hwrites]
          simp
      | some fds' => simp

/-- A call that fails leaves all sets as they are; one that succeeds leaves the
descriptors in them that the host returned the event of that kind for, and
counts them. -/
theorem pselect_contract {readfds writefds errorfds : Option DescriptorSet}
    (hanswers : Answers pollOneoff nfds (pointers readfds writefds errorfds) timeout) :
    let args := pointers readfds writefds errorfds
    let returned := pselectObjects pollOneoff nfds args timeout
    (∀ error, returned.1 = .error error → args.load returned.2 = args) ∧
    ∀ n, returned.1 = .ok n → ∃ given events,
      (pselect pollOneoff nfds args.readfds args.writefds args.errorfds timeout).subscriptions =
        some given ∧
      pollOneoff given = .ok events ∧
      ReadySet .fdRead nfds events args.readfds (args.load returned.2).readfds ∧
      ReadySet .fdWrite nfds events args.writefds (args.load returned.2).writefds ∧
      (args.load returned.2).errorfds = args.errorfds ∧ args.errorfds.getD [] = [] ∧
      n = sizes (args.load returned.2) := by
  intro args returned
  obtain ⟨hresult, hload⟩ := pselectObjects_eq pollOneoff nfds args timeout
  rw [show returned.1 = _ from hresult, show args.load returned.2 = _ from hload]
  cases hpolled : (pselect pollOneoff nfds args.readfds args.writefds args.errorfds
      timeout).result with
  | error error => exact ⟨fun _ _ => rfl, nofun⟩
  | ok triple =>
      obtain ⟨n, reads, writes⟩ := triple
      refine ⟨nofun, fun m hm => ?_⟩
      cases hm
      obtain ⟨hempty, clocks, events, hclocks, hgiven, hevents, rfl, rfl, hn⟩ := pselect_ok hpolled
      obtain ⟨hdrawn, honce⟩ := hanswers _ _ hgiven hevents
      have hreads : ∀ event ∈ events, event.type = .fdRead → ∃ fd ∈ args.readfds.getD [],
          BitVec.slt fd nfds = true ∧ event.userdata = fd.signExtend 64 := by
        intro event hevent htype
        obtain ⟨-, hfd⟩ | ⟨htype', -⟩ | htype' := drawn_cases hclocks (hdrawn event hevent)
        · exact hfd
        · cases htype.symm.trans htype'
        · cases htype.symm.trans htype'
      have hwrites : ∀ event ∈ events, event.type = .fdWrite → ∃ fd ∈ args.writefds.getD [],
          BitVec.slt fd nfds = true ∧ event.userdata = fd.signExtend 64 := by
        intro event hevent htype
        obtain ⟨htype', -⟩ | ⟨-, hfd⟩ | htype' := drawn_cases hclocks (hdrawn event hevent)
        · cases htype.symm.trans htype'
        · exact hfd
        · cases htype.symm.trans htype'
      refine ⟨_, events, hgiven, hevents, readySet_of_drawn hreads honce (fits_of_set readfds),
        readySet_of_drawn hwrites honce (fits_of_set writefds), rfl, hempty, ?_⟩
      rw [hn]
      exact sizes_returned args _ hempty hreads hwrites

end Contract

namespace SetsWitness

/-- Three descriptors are set, and one is cleared again. -/
def reads : DescriptorSet :=
  (((DescriptorSet.zero.set 3 (by decide)).set 4 (by decide)).set 5 (by decide)).clear 4

/-- Two descriptors to read, of which one is below the bound, and one to write. -/
def args : SetArguments :=
  pointers (some reads) (some (DescriptorSet.zero.set 3 (by decide))) none

/-- The first descriptor is ready for both, and the write comes first. -/
def pollOneoff (_ : List Subscription) : Except Errno (List Event) :=
  .ok [⟨3, 0, .fdWrite⟩, ⟨3, 0, .fdRead⟩]

theorem answers : Answers pollOneoff 5 args none := by
  intro given events hgiven hevents
  cases hgiven
  cases hevents
  unfold Event.DrawnFrom
  decide

theorem both_ready : (pselectObjects pollOneoff 5 args none).1 = .ok 2 ∧
    ∃ given events, pollOneoff given = .ok events ∧
      ReadySet .fdRead 5 events (some [3, 5])
        (args.load (pselectObjects pollOneoff 5 args none).2).readfds ∧
      2 = sizes (args.load (pselectObjects pollOneoff 5 args none).2) := by
  refine ⟨rfl, ?_⟩
  obtain ⟨given, events, -, hevents, hreads, -, -, -, hsizes⟩ := (pselect_contract answers).2 2 rfl
  exact ⟨given, events, hevents, hreads, hsizes⟩

end SetsWitness

end Select

end WasixLibc
