/-
The file actions of `posix_spawn`.

Each call puts a record in front of a linked list.  `malloc` leaves the fields
that a call does not fill as they are.
-/
import WasixLibc.LinkedStack
import WasixLibc.NulString
import WasixLibc.SystemTypes
import Mathlib.Data.List.Forall2

namespace WasixLibc

namespace Spawn

abbrev Addr := Nat
abbrev Bytes := List (BitVec 8)

/-- The characters of a string before its terminator. -/
structure CString where
  chars : Bytes
  nul_notMem : 0 ∉ chars
deriving DecidableEq

def FDOP_CLOSE : BitVec 32 := 1
def FDOP_DUP2 : BitVec 32 := 2
def FDOP_OPEN : BitVec 32 := 3
def FDOP_CHDIR : BitVec 32 := 4
def FDOP_FCHDIR : BitVec 32 := 5

/-- `path` is the memory behind the record. -/
structure Fdop where
  next : Option Addr
  prev : Option Addr
  cmd : BitVec 32
  fd : BitVec 32
  srcfd : BitVec 32
  oflag : BitVec 32
  mode : BitVec 32
  path : Bytes
deriving Repr, DecidableEq

/-- `posix_spawn_file_actions_t` and the records it leads to. -/
structure FileActions where
  actions : Option Addr
  heap : Addr → Fdop

def FileActions.init (heap : Addr → Fdop) : FileActions := ⟨none, heap⟩

def FileActions.next (fa : FileActions) (op : Addr) : Option Addr := (fa.heap op).next

def FileActions.prev (fa : FileActions) (op : Addr) : Option Addr := (fa.heap op).prev

/-- The end of each function below: the record at `op` is linked in front. -/
def FileActions.push (fa : FileActions) (op : Addr) (record : Fdop) : FileActions :=
  let heap := Function.update fa.heap op { record with next := fa.actions }
  let heap := match fa.actions with
    | none => heap
    | some next => Function.update heap next { heap next with prev := some op }
  let heap := Function.update heap op { heap op with prev := none }
  ⟨some op, heap⟩

section Add

/-! `op` is what `malloc` returns, and `record` what is there. -/

variable (fa : FileActions) (op : Option Addr) (record : Fdop)

def addclose (fd : BitVec 32) : Errno × FileActions :=
  match op with
  | none => (ENOMEM, fa)
  | some op => (0, fa.push op { record with cmd := FDOP_CLOSE, fd := fd })

def adddup2 (srcfd fd : BitVec 32) : Errno × FileActions :=
  match op with
  | none => (ENOMEM, fa)
  | some op => (0, fa.push op { record with cmd := FDOP_DUP2, srcfd := srcfd, fd := fd })

def addopen (fd : BitVec 32) (path : CString) (flags mode : BitVec 32) : Errno × FileActions :=
  match op with
  | none => (ENOMEM, fa)
  | some op => (0, fa.push op { record with
      cmd := FDOP_OPEN, fd := fd, oflag := flags, mode := mode, path := path.chars ++ [0] })

def addchdir (path : CString) : Errno × FileActions :=
  match op with
  | none => (ENOMEM, fa)
  | some op => (0, fa.push op { record with
      cmd := FDOP_CHDIR, fd := -1, path := path.chars ++ [0] })

def addfchdir (fd : BitVec 32) : Errno × FileActions :=
  match op with
  | none => (ENOMEM, fa)
  | some op => (0, fa.push op { record with cmd := FDOP_FCHDIR, fd := fd })

end Add

/-- A call, by its arguments. -/
inductive FileAction where
  | close (fd : BitVec 32)
  | dup2 (srcfd fd : BitVec 32)
  | openFile (fd : BitVec 32) (path : CString) (flags mode : BitVec 32)
  | chdir (path : CString)
  | fchdir (fd : BitVec 32)
deriving DecidableEq

def FileAction.add (fa : FileActions) (op : Option Addr) (record : Fdop) :
    FileAction → Errno × FileActions
  | .close fd => addclose fa op record fd
  | .dup2 srcfd fd => adddup2 fa op record srcfd fd
  | .openFile fd path flags mode => addopen fa op record fd path flags mode
  | .chdir path => addchdir fa op record path
  | .fchdir fd => addfchdir fa op record fd

/-- The calls that built `fa`, in their order, and the records they were given,
the latest first.  A new record is none of these. -/
inductive Built : List FileAction → List Addr → FileActions → Prop
  | init (heap : Addr → Fdop) : Built [] [] (FileActions.init heap)
  | add {added : List FileAction} {ops : List Addr} {fa fa' : FileActions} {err : Errno}
      (action : FileAction) (op : Addr) (record : Fdop) :
      Built added ops fa → op ∉ ops → action.add fa (some op) record = (err, fa') →
        Built (added ++ [action]) (op :: ops) fa'

/-- The record at hand says what the call said. -/
def FileAction.Recorded (record : Fdop) : FileAction → Prop
  | .close fd => record.cmd = FDOP_CLOSE ∧ record.fd = fd
  | .dup2 srcfd fd => record.cmd = FDOP_DUP2 ∧ record.srcfd = srcfd ∧ record.fd = fd
  | .openFile fd path flags mode =>
      record.cmd = FDOP_OPEN ∧ record.fd = fd ∧ record.oflag = flags ∧ record.mode = mode ∧
        record.path = path.chars ++ [0]
  | .chdir path => record.cmd = FDOP_CHDIR ∧ record.path = path.chars ++ [0]
  | .fchdir fd => record.cmd = FDOP_FCHDIR ∧ record.fd = fd

/-- Nothing but the links of the record is different. -/
def Fdop.SameBody (record record' : Fdop) : Prop :=
  record'.cmd = record.cmd ∧ record'.fd = record.fd ∧ record'.srcfd = record.srcfd ∧
    record'.oflag = record.oflag ∧ record'.mode = record.mode ∧ record'.path = record.path

theorem FileAction.Recorded.of_sameBody {record record' : Fdop} {action : FileAction}
    (h : action.Recorded record) (hsame : record.SameBody record') : action.Recorded record' := by
  obtain ⟨hcmd, hfd, hsrcfd, hoflag, hmode, hpath⟩ := hsame
  cases action <;> simpa only [FileAction.Recorded, hcmd, hfd, hsrcfd, hoflag, hmode, hpath] using h

section Push

variable (fa : FileActions) {op b : Addr} (record : Fdop)

theorem push_heap_self :
    (fa.push op record).heap op = { record with next := fa.actions, prev := none } := by
  unfold FileActions.push
  cases hactions : fa.actions with
  | none => simp only [Function.update_self]
  | some next =>
      by_cases hne : op = next
      · subst hne
        simp only [Function.update_self]
      · simp only [Function.update_self, Function.update_of_ne hne]

theorem push_heap_head (h : fa.actions = some b) (hne : b ≠ op) :
    (fa.push op record).heap b = { fa.heap b with prev := some op } := by
  unfold FileActions.push
  rw [h]
  simp only [Function.update_self, Function.update_of_ne hne]

theorem push_heap_of_ne (h : fa.actions ≠ some b) (hne : b ≠ op) :
    (fa.push op record).heap b = fa.heap b := by
  unfold FileActions.push
  cases hactions : fa.actions with
  | none => simp only [Function.update_of_ne hne]
  | some next =>
      have hnext : b ≠ next := fun heq => h (hactions.trans (congrArg some heq.symm))
      simp only [Function.update_of_ne hne, Function.update_of_ne hnext]

theorem push_sameBody (hne : b ≠ op) : (fa.heap b).SameBody ((fa.push op record).heap b) := by
  by_cases h : fa.actions = some b
  · rw [push_heap_head fa record h hne]
    exact ⟨rfl, rfl, rfl, rfl, rfl, rfl⟩
  · rw [push_heap_of_ne fa record h hne]
    exact ⟨rfl, rfl, rfl, rfl, rfl, rfl⟩

end Push

/-- Every call that gets memory succeeds and pushes a record of itself. -/
theorem FileAction.add_some (action : FileAction) (fa : FileActions) (op : Addr) (record : Fdop) :
    ∃ filled : Fdop, action.add fa (some op) record = (0, fa.push op filled) ∧
      action.Recorded filled := by
  cases action with
  | close fd => exact ⟨_, rfl, rfl, rfl⟩
  | dup2 srcfd fd => exact ⟨_, rfl, rfl, rfl, rfl⟩
  | openFile fd path flags mode => exact ⟨_, rfl, rfl, rfl, rfl, rfl, rfl⟩
  | chdir path => exact ⟨_, rfl, rfl, rfl⟩
  | fchdir fd => exact ⟨_, rfl, rfl, rfl⟩

theorem forall₂_imp_right {α β : Type} {R S : α → β → Prop} {as : List α} {bs : List β}
    (h : List.Forall₂ R as bs) (himp : ∀ a, ∀ b ∈ bs, R a b → S a b) : List.Forall₂ S as bs := by
  induction h with
  | nil => exact List.Forall₂.nil
  | cons hab _ ih =>
      refine List.Forall₂.cons (himp _ _ List.mem_cons_self hab) (ih ?_)
      intro a b hb
      exact himp a b (List.mem_cons_of_mem _ hb)

/-- The list is linked in both directions, and each record is that of its call. -/
structure FileActionsInv (added : List FileAction) (ops : List Addr) (fa : FileActions) : Prop where
  head : fa.actions = ops.head?
  linked : LinkedStack.Linked fa.next fa.prev ops
  recorded : List.Forall₂ (fun action op => action.Recorded (fa.heap op)) added ops.reverse

theorem FileActionsInv.push {added : List FileAction} {ops : List Addr} {fa : FileActions}
    {action : FileAction} {op : Addr} {filled : Fdop} (h : FileActionsInv added ops fa)
    (hop : op ∉ ops) (hfilled : action.Recorded filled) :
    FileActionsInv (added ++ [action]) (op :: ops) (fa.push op filled) where
  head := rfl
  linked := by
    have hne : ∀ b ∈ ops, b ≠ op := fun b hb heq => hop (heq ▸ hb)
    apply h.linked.push hop
    · unfold FileActions.next
      rw [push_heap_self]
      exact h.head
    · intro b hb
      unfold FileActions.next
      by_cases hhead : fa.actions = some b
      · rw [push_heap_head fa filled hhead (hne b hb)]
      · rw [push_heap_of_ne fa filled hhead (hne b hb)]
    · unfold FileActions.prev
      rw [push_heap_self]
    · intro b hb
      have hhead := h.head.trans hb
      unfold FileActions.prev
      rw [push_heap_head fa filled hhead (hne b (List.mem_of_head? hb))]
    · intro b hb hhead
      rw [← h.head] at hhead
      unfold FileActions.prev
      rw [push_heap_of_ne fa filled hhead (hne b hb)]
  recorded := by
    have hold : List.Forall₂ (fun action b => action.Recorded ((fa.push op filled).heap b)) added
        ops.reverse := by
      apply forall₂_imp_right h.recorded
      intro action b hb hrecorded
      have hne : b ≠ op := fun heq => hop (heq ▸ List.mem_reverse.mp hb)
      exact hrecorded.of_sameBody (push_sameBody fa filled hne)
    have hnew : action.Recorded ((fa.push op filled).heap op) := by
      rw [push_heap_self]
      exact hfilled.of_sameBody ⟨rfl, rfl, rfl, rfl, rfl, rfl⟩
    rw [List.reverse_cons]
    exact List.rel_append hold (List.Forall₂.cons hnew List.Forall₂.nil)

theorem Built.inv {added : List FileAction} {ops : List Addr} {fa : FileActions}
    (h : Built added ops fa) : FileActionsInv added ops fa := by
  induction h with
  | init heap => exact ⟨rfl, LinkedStack.linked_nil _ _, List.Forall₂.nil⟩
  | add action op record hbuilt hop hadd ih =>
      obtain ⟨filled, hpush, hfilled⟩ := action.add_some _ op record
      rw [hpush] at hadd
      cases hadd
      exact ih.push hop hfilled

end Spawn

end WasixLibc
