/-
The call of the host behind `posix_spawn`.

The list of file actions is walked to its last record and back, and the
dispositions of the signals are sent in two rounds.  The host processes either
list in its order.
-/
import WasixLibc.FileActions
import WasixLibc.SignalThread
import Mathlib.Data.Nat.Bitwise

namespace WasixLibc

namespace Spawn

def O_NOFOLLOW : BitVec 32 := 0x01000000
def O_EXEC : BitVec 32 := 0x02000000
def O_RDONLY : BitVec 32 := 0x04000000
def O_SEARCH : BitVec 32 := 0x08000000
def O_WRONLY : BitVec 32 := 0x10000000
def O_RDWR : BitVec 32 := O_RDONLY ||| O_WRONLY
def O_ACCMODE : BitVec 32 := O_EXEC ||| O_RDWR ||| O_SEARCH

def RIGHTS_FD_DATASYNC : BitVec 64 := 1 <<< 0
def RIGHTS_FD_READ : BitVec 64 := 1 <<< 1
def RIGHTS_FD_WRITE : BitVec 64 := 1 <<< 6
def RIGHTS_FD_ALLOCATE : BitVec 64 := 1 <<< 8
def RIGHTS_FD_READDIR : BitVec 64 := 1 <<< 14
def RIGHTS_FD_FILESTAT_SET_SIZE : BitVec 64 := 1 <<< 22

def LOOKUPFLAGS_SYMLINK_FOLLOW : BitVec 32 := 1

def FD_OP_NAME_CLOSE : BitVec 8 := 0
def FD_OP_NAME_DUP2 : BitVec 8 := 1
def FD_OP_NAME_OPEN : BitVec 8 := 2
def FD_OP_NAME_CHDIR : BitVec 8 := 3
def FD_OP_NAME_FCHDIR : BitVec 8 := 4

/-- `__wasi_proc_spawn_fd_op_t`, with the memory that `path` points to. -/
structure FdOp where
  cmd : BitVec 8
  fd : BitVec 32
  srcFd : BitVec 32
  path : Option Bytes
  pathLen : Nat
  dirflags : BitVec 32
  oflags : BitVec 16
  fsRightsBase : BitVec 64
  fsRightsInheriting : BitVec 64
  fdflags : BitVec 16
  fdflagsext : BitVec 16
deriving Repr, DecidableEq

/-- The first switch of the loop. -/
def opName (cmd : BitVec 32) : Except Errno (BitVec 8) :=
  if cmd = FDOP_OPEN then .ok FD_OP_NAME_OPEN
  else if cmd = FDOP_CLOSE then .ok FD_OP_NAME_CLOSE
  else if cmd = FDOP_DUP2 then .ok FD_OP_NAME_DUP2
  else if cmd = FDOP_CHDIR then .ok FD_OP_NAME_CHDIR
  else if cmd = FDOP_FCHDIR then .ok FD_OP_NAME_FCHDIR
  else .error EINVAL

def rightsOf (oflag : BitVec 32) : BitVec 64 :=
  let rights := ~~~(RIGHTS_FD_DATASYNC ||| RIGHTS_FD_READ ||| RIGHTS_FD_WRITE |||
    RIGHTS_FD_ALLOCATE ||| RIGHTS_FD_READDIR ||| RIGHTS_FD_FILESTAT_SET_SIZE)
  let mode := oflag &&& O_ACCMODE
  if mode = O_RDONLY ∨ mode = O_RDWR ∨ mode = O_WRONLY then
    let rights := if oflag &&& O_RDONLY ≠ 0 then
      rights ||| (RIGHTS_FD_READ ||| RIGHTS_FD_READDIR) else rights
    if oflag &&& O_WRONLY ≠ 0 then
      rights ||| (RIGHTS_FD_DATASYNC ||| RIGHTS_FD_WRITE ||| RIGHTS_FD_ALLOCATE |||
        RIGHTS_FD_FILESTAT_SET_SIZE)
    else rights
  else rights

/-- What the loop stores for a record with a known command. -/
def fdOpOf (name : BitVec 8) (op : Fdop) : FdOp where
  cmd := name
  fd := op.fd
  srcFd := op.srcfd
  path := if op.cmd = FDOP_OPEN ∨ op.cmd = FDOP_CHDIR then some op.path else none
  pathLen := if op.cmd = FDOP_OPEN ∨ op.cmd = FDOP_CHDIR then
    (readString 0 op.path).length else 0
  dirflags := if op.oflag &&& O_NOFOLLOW = 0 then LOOKUPFLAGS_SYMLINK_FOLLOW else 0
  oflags := (op.oflag.sshiftRight 12 &&& 0xfff).setWidth 16
  fsRightsBase := rightsOf op.oflag
  fsRightsInheriting := rightsOf op.oflag
  fdflags := (op.oflag &&& 0xfff).setWidth 16
  fdflagsext := (op.oflag.sshiftRight 30 &&& 0x03).setWidth 16

/-- The body of the loop over the file actions. -/
def toFdOp (op : Fdop) : Except Errno FdOp :=
  (opName op.cmd).map (fun name => fdOpOf name op)

/-- `fdops`, which stays null without actions, and `nfdops`. -/
structure FdOps where
  fdops : Option (List FdOp)
  nfdops : Nat
deriving Repr, DecidableEq

/-- Out of `fuel` is a list without an end. -/
def marshalActions (fuel : Nat) : Option FileActions → Option (Except Errno FdOps)
  | none => some (.ok ⟨none, 0⟩)
  | some fa =>
      match fa.actions with
      | none => some (.ok ⟨none, 0⟩)
      | some op =>
          match LinkedStack.seekLast fa.next fuel op 0 with
          | none => none
          | some (last, n) =>
              (LinkedStack.walk fa.prev (fun op => toFdOp (fa.heap op)) fuel (some last)).map
                (fun result => result.map (fun fdops => ⟨some fdops, n + 1⟩))

/-! Signals -/

inductive Disposition where
  | default
  | ignore
deriving Repr, DecidableEq

structure SignalDisposition where
  sig : Nat
  disp : Disposition
deriving Repr, DecidableEq

/-- `__eintr_handler_callbacks`. It is written for the signals of the
application only. -/
structure Callbacks where
  entry : Nat → Signal.KSigaction
  internal : ∀ sig, ¬ Signal.AppSig sig → (entry sig).handler = .sigDfl

/-- `sigaction(sig, NULL, &old)`, or `none` where it fails. -/
def Callbacks.sigaction (callbacks : Callbacks) (sig : Nat) : Option Signal.KSigaction :=
  if Signal.AppSig sig then some (callbacks.entry sig) else none

/-- `for (int sig = 1; sig < _NSIG; sig++)` -/
def signalNumbers : List Nat := List.range' 1 (Signal.NSIG - 1)

def ignoredSignals (callbacks : Callbacks) : List SignalDisposition :=
  (signalNumbers.filter (fun sig =>
    (callbacks.sigaction sig).any (fun old => old.handler = .sigIgn))).map (⟨·, .ignore⟩)

def POSIX_SPAWN_SETSIGDEF : BitVec 32 := 4

structure SpawnAttr where
  flags : BitVec 32
  sigdefault : Signal.Sigset
deriving Repr, DecidableEq

def defaultSignals (attr : SpawnAttr) : List SignalDisposition :=
  if attr.flags &&& POSIX_SPAWN_SETSIGDEF ≠ 0 then
    (signalNumbers.filter (fun sig => Signal.sigsetTest attr.sigdefault sig)).map (⟨·, .default⟩)
  else []

/-! The call -/

/-- The arguments of `__wasi_proc_spawn3`. -/
structure ProcSpawn where
  name : CString
  argv : Option (List CString)
  argc : Nat
  envp : Option (List CString)
  envc : Nat
  fdOps : FdOps
  signals : List SignalDisposition
  nsignals : Nat
  searchPath : Bool
  pathEnv : CString

def countStrings (strings : Option (List CString)) : Nat := (strings.map List.length).getD 0

def chars (s : String) : Bytes := s.toList.map (fun c => BitVec.ofNat 8 c.toNat)

def emptyPath : CString := ⟨[], by decide⟩

def defaultPath : CString := ⟨chars "/usr/local/bin:/bin:/usr/bin", by decide⟩

/-- `attrReads` are the pointers through which an attribute object was read,
`call` is what the host was called with, and `res` is what is stored through
`res`. -/
structure Spawned where
  attrReads : List (Option Addr)
  call : Option ProcSpawn
  err : Errno
  res : Option (BitVec 32)

section Call

/-! `attrAt` is what is read as an attribute object, through the null pointer
too; `getenv` is the value of `PATH`. -/

variable (attrAt : Option Addr → SpawnAttr) (callbacks : Callbacks) (getenv : Option CString)
  (procSpawn : ProcSpawn → Errno × BitVec 32)

/-- `__posix_spawn`, where `calloc` succeeds. -/
def posixSpawn (fuel : Nat) (hasRes : Bool) (path : CString) (fa : Option FileActions)
    (attr : Option Addr) (argv envp : Option (List CString)) (usePath : Bool) : Option Spawned :=
  (marshalActions fuel fa).map (fun result =>
    match result with
    | .error err => ⟨[], none, err, none⟩
    | .ok fdOps =>
        let signals := ignoredSignals callbacks ++ defaultSignals (attrAt attr)
        let pathEnv := if usePath then getenv.getD defaultPath else emptyPath
        let call : ProcSpawn :=
          ⟨path, argv, countStrings argv, envp, countStrings envp, fdOps, signals, signals.length,
            usePath, pathEnv⟩
        let ret := procSpawn call
        ⟨[attr], some call, ret.1, if ret.1 = 0 ∧ hasRes then some ret.2 else none⟩)

end Call

/-! What the host should receive -/

def FdOp.HasPath (record : FdOp) (path : CString) : Prop :=
  ∃ bytes, record.path = some bytes ∧ HoldsString 0 bytes path.chars ∧
    record.pathLen = path.chars.length

def FdOp.NoPath (record : FdOp) : Prop := record.path = none ∧ record.pathLen = 0

/-- The bits of the flags where the host looks for them. -/
structure FdOp.HasFlags (record : FdOp) (flags : BitVec 32) : Prop where
  fdflags : ∀ i < 12, record.fdflags.getLsbD i = flags.getLsbD i
  oflags : ∀ i < 12, record.oflags.getLsbD i = flags.getLsbD (12 + i)
  fdflagsext : ∀ i < 2, record.fdflagsext.getLsbD i = flags.getLsbD (30 + i)
  follow : record.dirflags = LOOKUPFLAGS_SYMLINK_FOLLOW ↔ flags &&& O_NOFOLLOW = 0
  read : record.fsRightsBase &&& RIGHTS_FD_READ ≠ 0 ↔
    flags &&& O_ACCMODE = O_RDONLY ∨ flags &&& O_ACCMODE = O_RDWR
  write : record.fsRightsBase &&& RIGHTS_FD_WRITE ≠ 0 ↔
    flags &&& O_ACCMODE = O_WRONLY ∨ flags &&& O_ACCMODE = O_RDWR
  inheriting : record.fsRightsInheriting = record.fsRightsBase

/-- The record of the host says what the call said; the host has no use for
the mode of a new file. -/
def FdOp.Carries (record : FdOp) : FileAction → Prop
  | .close fd => record.cmd = FD_OP_NAME_CLOSE ∧ record.fd = fd ∧ record.NoPath
  | .dup2 srcfd fd =>
      record.cmd = FD_OP_NAME_DUP2 ∧ record.srcFd = srcfd ∧ record.fd = fd ∧ record.NoPath
  | .openFile fd path flags _ =>
      record.cmd = FD_OP_NAME_OPEN ∧ record.fd = fd ∧ record.HasPath path ∧ record.HasFlags flags
  | .chdir path => record.cmd = FD_OP_NAME_CHDIR ∧ record.HasPath path
  | .fchdir fd => record.cmd = FD_OP_NAME_FCHDIR ∧ record.fd = fd ∧ record.NoPath

/-- The last record of a signal decides. -/
def effective (signals : List SignalDisposition) (sig : Nat) : Option Disposition :=
  (signals.reverse.find? (fun signal => signal.sig = sig)).map SignalDisposition.disp

def expected (attrAt : Option Addr → SpawnAttr) (callbacks : Callbacks) (attr : Option Addr)
    (sig : Nat) : Option Disposition :=
  if attr ≠ none ∧ (attrAt attr).flags &&& POSIX_SPAWN_SETSIGDEF ≠ 0 ∧
      Signal.sigsetTest (attrAt attr).sigdefault sig then some .default
  else if (callbacks.entry sig).handler = .sigIgn then some .ignore
  else none

/-- All that the host should be told, and how. -/
structure Marshals (attrAt : Option Addr → SpawnAttr) (callbacks : Callbacks)
    (added : List FileAction) (attr : Option Addr) (spawned : Spawned) : Prop where
  called : ∃ call, spawned.call = some call ∧
    List.Forall₂ (fun action record => FdOp.Carries record action) added
      (call.fdOps.fdops.getD []) ∧
    call.fdOps.nfdops = added.length ∧
    (∀ sig, 1 ≤ sig → sig < Signal.NSIG →
      effective call.signals sig = expected attrAt callbacks attr sig) ∧
    call.nsignals = call.signals.length ∧ call.nsignals ≤ Signal.NSIG * 2
  attrRead : none ∉ spawned.attrReads

/-! The file actions -/

theorem toFdOp_of_opName {op : Fdop} {name : BitVec 8} (h : opName op.cmd = .ok name) :
    toFdOp op = .ok (fdOpOf name op) := by
  unfold toFdOp
  rw [h]
  rfl

theorem fdOpOf_hasPath (name : BitVec 8) {op : Fdop} {path : CString}
    (hcmd : op.cmd = FDOP_OPEN ∨ op.cmd = FDOP_CHDIR) (hpath : op.path = path.chars ++ [0]) :
    (fdOpOf name op).HasPath path := by
  have hholds : HoldsString 0 op.path path.chars := ⟨[], hpath⟩
  refine ⟨op.path, if_pos hcmd, hholds, (if_pos hcmd).trans ?_⟩
  rw [readString_of_holds hholds path.nul_notMem]

theorem fdOpOf_noPath (name : BitVec 8) {op : Fdop}
    (hcmd : ¬ (op.cmd = FDOP_OPEN ∨ op.cmd = FDOP_CHDIR)) : (fdOpOf name op).NoPath :=
  ⟨if_neg hcmd, if_neg hcmd⟩

/-- The rights depend on the access mode alone. -/
theorem rightsOf_accmode (oflag : BitVec 32) : rightsOf oflag = rightsOf (oflag &&& O_ACCMODE) := by
  have hmode : oflag &&& O_ACCMODE &&& O_ACCMODE = oflag &&& O_ACCMODE := by
    rw [BitVec.and_assoc, BitVec.and_self]
  have hread : oflag &&& O_ACCMODE &&& O_RDONLY = oflag &&& O_RDONLY := by
    rw [BitVec.and_assoc]
    rfl
  have hwrite : oflag &&& O_ACCMODE &&& O_WRONLY = oflag &&& O_WRONLY := by
    rw [BitVec.and_assoc]
    rfl
  unfold rightsOf
  rw [hmode, hread, hwrite]

theorem rightsOf_other {mode : BitVec 32} (hmode : mode &&& O_ACCMODE = mode)
    (hread : mode ≠ O_RDONLY) (hboth : mode ≠ O_RDWR) (hwrite : mode ≠ O_WRONLY) :
    rightsOf mode = rightsOf 0 := by
  have hother : ¬ (mode = O_RDONLY ∨ mode = O_RDWR ∨ mode = O_WRONLY) := by
    rintro (h | h | h)
    · exact hread h
    · exact hboth h
    · exact hwrite h
  unfold rightsOf
  rw [hmode, if_neg hother]
  rfl

theorem rightsOf_read_write (oflag : BitVec 32) :
    (rightsOf oflag &&& RIGHTS_FD_READ ≠ 0 ↔
      oflag &&& O_ACCMODE = O_RDONLY ∨ oflag &&& O_ACCMODE = O_RDWR) ∧
    (rightsOf oflag &&& RIGHTS_FD_WRITE ≠ 0 ↔
      oflag &&& O_ACCMODE = O_WRONLY ∨ oflag &&& O_ACCMODE = O_RDWR) := by
  have hmode : oflag &&& O_ACCMODE &&& O_ACCMODE = oflag &&& O_ACCMODE := by
    rw [BitVec.and_assoc, BitVec.and_self]
  rw [rightsOf_accmode]
  generalize oflag &&& O_ACCMODE = mode at hmode
  by_cases hread : mode = O_RDONLY
  · subst hread
    decide
  · by_cases hboth : mode = O_RDWR
    · subst hboth
      decide
    · by_cases hwrite : mode = O_WRONLY
      · subst hwrite
        decide
      · rw [rightsOf_other hmode hread hboth hwrite]
        simp only [hread, hboth, hwrite, or_self, iff_false]
        decide

theorem getLsbD_mask (x : BitVec 32) {mask : BitVec 32} {i n : Nat}
    (hmask : mask = BitVec.ofNat 32 (2 ^ n - 1)) (hn : n ≤ 16) (hi : i < n) :
    ((x &&& mask).setWidth 16).getLsbD i = x.getLsbD i := by
  have hword : i < 32 := by omega
  have hhalf : i < 16 := by omega
  subst hmask
  simp [BitVec.getLsbD_ofNat, hi, hword, hhalf]

theorem getLsbD_sshiftRight_of_lt (x : BitVec 32) {i k : Nat} (h : k + i < 32) :
    (x.sshiftRight k).getLsbD i = x.getLsbD (k + i) := by
  have hword : ¬ 32 ≤ i := by omega
  rw [BitVec.getLsbD_sshiftRight, if_pos h]
  simp only [hword, decide_false, Bool.not_false, Bool.true_and]

theorem fdOpOf_hasFlags (name : BitVec 8) (op : Fdop) : (fdOpOf name op).HasFlags op.oflag where
  fdflags := by
    intro i hi
    exact getLsbD_mask op.oflag (n := 12) rfl (by decide) hi
  oflags := by
    intro i hi
    rw [← getLsbD_sshiftRight_of_lt op.oflag (by omega)]
    exact getLsbD_mask (op.oflag.sshiftRight 12) (n := 12) rfl (by decide) hi
  fdflagsext := by
    intro i hi
    rw [← getLsbD_sshiftRight_of_lt op.oflag (by omega)]
    exact getLsbD_mask (op.oflag.sshiftRight 30) (n := 2) rfl (by decide) hi
  follow := by
    unfold fdOpOf
    by_cases hfollow : op.oflag &&& O_NOFOLLOW = 0
    · simp only [hfollow, if_true]
    · simp only [hfollow, if_false, iff_false]
      decide
  read := (rightsOf_read_write op.oflag).1
  write := (rightsOf_read_write op.oflag).2
  inheriting := rfl

/-- The loop turns the record of a call into one that carries the call. -/
theorem toFdOp_carries {action : FileAction} {op : Fdop} (h : action.Recorded op) :
    ∃ record, toFdOp op = .ok record ∧ record.Carries action := by
  cases action with
  | close fd =>
      obtain ⟨hcmd, hfd⟩ := h
      have hpath : ¬ (op.cmd = FDOP_OPEN ∨ op.cmd = FDOP_CHDIR) := by rw [hcmd]; decide
      have hname : opName op.cmd = .ok FD_OP_NAME_CLOSE := by rw [hcmd]; rfl
      exact ⟨_, toFdOp_of_opName hname, rfl, hfd, fdOpOf_noPath _ hpath⟩
  | dup2 srcfd fd =>
      obtain ⟨hcmd, hsrcfd, hfd⟩ := h
      have hpath : ¬ (op.cmd = FDOP_OPEN ∨ op.cmd = FDOP_CHDIR) := by rw [hcmd]; decide
      have hname : opName op.cmd = .ok FD_OP_NAME_DUP2 := by rw [hcmd]; rfl
      exact ⟨_, toFdOp_of_opName hname, rfl, hsrcfd, hfd, fdOpOf_noPath _ hpath⟩
  | openFile fd path flags mode =>
      obtain ⟨hcmd, hfd, hflags, -, hpath⟩ := h
      have hname : opName op.cmd = .ok FD_OP_NAME_OPEN := by rw [hcmd]; rfl
      subst hflags
      exact ⟨_, toFdOp_of_opName hname, rfl, hfd, fdOpOf_hasPath _ (Or.inl hcmd) hpath,
        fdOpOf_hasFlags _ op⟩
  | chdir path =>
      obtain ⟨hcmd, hpath⟩ := h
      have hname : opName op.cmd = .ok FD_OP_NAME_CHDIR := by rw [hcmd]; rfl
      exact ⟨_, toFdOp_of_opName hname, rfl, fdOpOf_hasPath _ (Or.inr hcmd) hpath⟩
  | fchdir fd =>
      obtain ⟨hcmd, hfd⟩ := h
      have hpath : ¬ (op.cmd = FDOP_OPEN ∨ op.cmd = FDOP_CHDIR) := by rw [hcmd]; decide
      have hname : opName op.cmd = .ok FD_OP_NAME_FCHDIR := by rw [hcmd]; rfl
      exact ⟨_, toFdOp_of_opName hname, rfl, hfd, fdOpOf_noPath _ hpath⟩

/-- Records of all the calls are there once the loop is done. -/
theorem exists_carries {heap : Addr → Fdop} {added : List FileAction} {ops : List Addr}
    (h : List.Forall₂ (fun action op => action.Recorded (heap op)) added ops) :
    ∃ records, List.Forall₂ (fun op record => toFdOp (heap op) = .ok record) ops records ∧
      List.Forall₂ (fun action record => FdOp.Carries record action) added records := by
  induction h with
  | nil => exact ⟨[], List.Forall₂.nil, List.Forall₂.nil⟩
  | cons hrecorded _ ih =>
      obtain ⟨record, hrecord, hcarries⟩ := toFdOp_carries hrecorded
      obtain ⟨records, hrecords, hall⟩ := ih
      exact ⟨record :: records, List.Forall₂.cons hrecord hrecords, List.Forall₂.cons hcarries hall⟩

/-- The actions that `fa` stands for, the null pointer standing for none. -/
def Holds (fa : Option FileActions) (added : List FileAction) : Prop :=
  match fa with
  | none => added = []
  | some fa => ∃ ops, Built added ops fa

theorem marshalActions_eq {fa : Option FileActions} {added : List FileAction} {fuel : Nat}
    (h : Holds fa added) (hfuel : added.length ≤ fuel) :
    ∃ fdOps, marshalActions fuel fa = some (.ok fdOps) ∧
      List.Forall₂ (fun action record => FdOp.Carries record action) added
        (fdOps.fdops.getD []) ∧ fdOps.nfdops = added.length := by
  cases fa with
  | none =>
      cases h
      exact ⟨⟨none, 0⟩, rfl, List.Forall₂.nil, rfl⟩
  | some fa =>
      obtain ⟨ops, hbuilt⟩ := h
      have hinv := hbuilt.inv
      have hlength : added.length = ops.length := by
        rw [hinv.recorded.length_eq, List.length_reverse]
      cases ops with
      | nil =>
          have hadded := List.length_eq_zero_iff.mp hlength
          subst hadded
          refine ⟨⟨none, 0⟩, ?_, List.Forall₂.nil, rfl⟩
          unfold marshalActions
          dsimp only
          rw [hinv.head]
          rfl
      | cons op ops =>
          have hlength' : added.length = ops.length + 1 := hlength
          have hops : ops.length < fuel := by omega
          obtain ⟨last, hlast, hseek⟩ := LinkedStack.seekLast_eq (n := 0) hinv.linked.forward hops
          obtain ⟨records, hrecords, hall⟩ := exists_carries hinv.recorded
          have hhead : some last = (op :: ops).reverse.head? := by
            rw [List.head?_reverse, hlast]
          have hback : (op :: ops).reverse.length ≤ fuel := by
            rw [List.length_reverse, ← hlength]
            exact hfuel
          have hwalk := LinkedStack.walk_eq hinv.linked.back hback hrecords
          refine ⟨⟨some records, 0 + ops.length + 1⟩, ?_, hall, ?_⟩
          · unfold marshalActions
            dsimp only
            rw [hinv.head]
            dsimp only [List.head?_cons]
            rw [hseek]
            dsimp only
            rw [hhead, hwalk]
            rfl
          · dsimp only
            omega

/-! The signals -/

theorem effective_append (first second : List SignalDisposition) (sig : Nat) :
    effective (first ++ second) sig = (effective second sig).or (effective first sig) := by
  unfold effective
  rw [List.reverse_append, List.find?_append, Option.map_or]

theorem effective_map {sigs : List Nat} {disp : Disposition} {sig : Nat} :
    effective (sigs.map (⟨·, disp⟩)) sig = if sig ∈ sigs then some disp else none := by
  unfold effective
  cases hfind : (sigs.map (SignalDisposition.mk · disp)).reverse.find?
      (fun signal => signal.sig = sig) with
  | none =>
      rw [List.find?_eq_none] at hfind
      have hsig : sig ∉ sigs := by
        intro hmem
        exact hfind ⟨sig, disp⟩ (List.mem_reverse.mpr (List.mem_map_of_mem hmem))
          (decide_eq_true rfl)
      rw [if_neg hsig]
      rfl
  | some signal =>
      have hmem := List.mem_reverse.mp (List.mem_of_find?_eq_some hfind)
      have hfound : signal.sig = sig := by simpa using List.find?_some hfind
      obtain ⟨sig', hsig', rfl⟩ := List.mem_map.mp hmem
      have hsig : sig ∈ sigs := hfound ▸ hsig'
      rw [if_pos hsig]
      rfl

theorem mem_signalNumbers {sig : Nat} :
    sig ∈ signalNumbers ↔ 1 ≤ sig ∧ sig < Signal.NSIG := by
  unfold signalNumbers
  rw [List.mem_range'_1]
  exact Iff.rfl

section Signals

variable (callbacks : Callbacks) {sig : Nat}

theorem sigaction_any_sigIgn :
    (callbacks.sigaction sig).any (fun old => old.handler = .sigIgn) = true ↔
      (callbacks.entry sig).handler = .sigIgn := by
  unfold Callbacks.sigaction
  by_cases happ : Signal.AppSig sig
  · rw [if_pos happ, Option.any_some, decide_eq_true_iff]
  · rw [if_neg happ, callbacks.internal sig happ]
    simp only [Option.any_none, Bool.false_eq_true, reduceCtorEq]

theorem effective_ignoredSignals (hsig : 1 ≤ sig ∧ sig < Signal.NSIG) :
    effective (ignoredSignals callbacks) sig =
      if (callbacks.entry sig).handler = .sigIgn then some .ignore else none := by
  unfold ignoredSignals
  rw [effective_map]
  simp only [List.mem_filter, mem_signalNumbers, hsig, and_self, true_and, sigaction_any_sigIgn]

theorem effective_defaultSignals (attr : SpawnAttr) (hsig : 1 ≤ sig ∧ sig < Signal.NSIG) :
    effective (defaultSignals attr) sig =
      if attr.flags &&& POSIX_SPAWN_SETSIGDEF ≠ 0 ∧ Signal.sigsetTest attr.sigdefault sig then
        some .default else none := by
  unfold defaultSignals
  by_cases hflag : attr.flags &&& POSIX_SPAWN_SETSIGDEF ≠ 0
  · rw [if_pos hflag, effective_map]
    simp only [List.mem_filter, mem_signalNumbers, hsig, and_self, true_and, hflag, ne_eq,
      not_false_eq_true]
  · rw [if_neg hflag, if_neg (fun h => hflag h.1)]
    rfl

/-- Later entries take precedence. -/
theorem effective_signals {attrAt : Option Addr → SpawnAttr} {attr : Option Addr}
    (hattr : attr ≠ none) (hsig : 1 ≤ sig ∧ sig < Signal.NSIG) :
    effective (ignoredSignals callbacks ++ defaultSignals (attrAt attr)) sig =
      expected attrAt callbacks attr sig := by
  rw [effective_append, effective_ignoredSignals callbacks hsig,
    effective_defaultSignals _ hsig]
  by_cases hdefault : (attrAt attr).flags &&& POSIX_SPAWN_SETSIGDEF ≠ 0 ∧
      Signal.sigsetTest (attrAt attr).sigdefault sig
  · have hexpected : expected attrAt callbacks attr sig = some .default :=
      if_pos ⟨hattr, hdefault⟩
    rw [hexpected, if_pos hdefault]
    rfl
  · have hexpected : expected attrAt callbacks attr sig =
        if (callbacks.entry sig).handler = .sigIgn then some .ignore else none :=
      if_neg (fun h => hdefault h.2)
    rw [hexpected, if_neg hdefault]
    rfl

theorem length_signals_le (attr : SpawnAttr) :
    (ignoredSignals callbacks ++ defaultSignals attr).length ≤ Signal.NSIG * 2 := by
  have hall : signalNumbers.length = 64 := List.length_range'
  have hignored : (ignoredSignals callbacks).length ≤ 64 := by
    unfold ignoredSignals
    rw [List.length_map, ← hall]
    exact List.length_filter_le _ _
  have hdefault : (defaultSignals attr).length ≤ 64 := by
    unfold defaultSignals
    split
    · rw [List.length_map, ← hall]
      exact List.length_filter_le _ _
    · exact Nat.zero_le _
  rw [List.length_append]
  exact Nat.le_trans (Nat.add_le_add hignored hdefault) (by decide)

end Signals

/-- The host is told everything, but the attribute object is read through any
pointer. -/
theorem posixSpawn_marshals_iff (attrAt : Option Addr → SpawnAttr) (callbacks : Callbacks)
    (getenv : Option CString) (procSpawn : ProcSpawn → Errno × BitVec 32) (hasRes : Bool)
    (path : CString) (attr : Option Addr) (argv envp : Option (List CString)) (usePath : Bool)
    {fa : Option FileActions} {added : List FileAction} {fuel : Nat}
    (h : Holds fa added) (hfuel : added.length ≤ fuel) :
    ∃ spawned, posixSpawn attrAt callbacks getenv procSpawn fuel hasRes path fa attr argv envp
        usePath = some spawned ∧
      (Marshals attrAt callbacks added attr spawned ↔ attr ≠ none) := by
  obtain ⟨fdOps, hfdOps, hcarries, hcount⟩ := marshalActions_eq h hfuel
  unfold posixSpawn
  rw [hfdOps]
  refine ⟨_, rfl, ?_⟩
  constructor
  · rintro hmarshals rfl
    exact hmarshals.attrRead List.mem_cons_self
  · intro hattr
    refine ⟨⟨_, rfl, hcarries, hcount, ?_, rfl, length_signals_le callbacks _⟩, ?_⟩
    · intro sig hlow hhigh
      exact effective_signals callbacks hattr ⟨hlow, hhigh⟩
    · intro hmem
      exact hattr (List.mem_singleton.mp hmem).symm

namespace SpawnWitness

/-- Nothing is caught and nothing ignored. -/
def defaults : Callbacks := ⟨fun _ => {}, fun _ _ => rfl⟩

def garbage : Fdop := ⟨some 3, some 3, 9, 9, 9, 0xffffffff, 9, []⟩

def name : CString := ⟨[97], by decide⟩

/-- `close(3)`, then `chdir("a")`. -/
def actions : FileActions :=
  (addchdir (addclose (FileActions.init (fun _ => garbage)) (some 8) garbage 3).2 (some 16) garbage
    name).2

theorem actions_built : Built [.close 3, .chdir name] [16, 8] actions :=
  Built.add (.chdir name) 16 garbage
    (Built.add (.close 3) 8 garbage (Built.init _) (by decide) rfl) (by decide) rfl

/-- Both actions and no signal are sent. -/
theorem actions_marshalled :
    ∃ spawned, posixSpawn (fun _ => ⟨0, 0⟩) defaults none (fun _ => (0, 7)) 2 true name
        (some actions) (some 64) none none false = some spawned ∧
      Marshals (fun _ => ⟨0, 0⟩) defaults [.close 3, .chdir name] (some 64) spawned := by
  have hholds : Holds (some actions) [.close 3, .chdir name] := ⟨[16, 8], actions_built⟩
  obtain ⟨spawned, hspawned, hiff⟩ := posixSpawn_marshals_iff (fun _ => ⟨0, 0⟩) defaults none
    (fun _ => (0, 7)) true name (some 64) none none false hholds (Nat.le_refl 2)
  exact ⟨spawned, hspawned, hiff.mpr (Option.some_ne_none 64)⟩

/-- Without attributes the null pointer is read. -/
theorem null_attr_read :
    ¬ ∀ (attrAt : Option Addr → SpawnAttr) (callbacks : Callbacks) (getenv : Option CString)
        (procSpawn : ProcSpawn → Errno × BitVec 32) (hasRes : Bool) (path : CString)
        (attr : Option Addr) (argv envp : Option (List CString)) (usePath : Bool)
        (fa : Option FileActions) (added : List FileAction) (fuel : Nat),
        Holds fa added → added.length ≤ fuel →
          ∃ spawned, posixSpawn attrAt callbacks getenv procSpawn fuel hasRes path fa attr argv
              envp usePath = some spawned ∧
            Marshals attrAt callbacks added attr spawned := by
  intro h
  obtain ⟨spawned, hspawned, hmarshals⟩ := h (fun _ => ⟨0, 0⟩) defaults none (fun _ => (0, 7))
    false name none none none false none [] 0 rfl (Nat.le_refl 0)
  cases hspawned
  exact hmarshals.attrRead List.mem_cons_self

end SpawnWitness

end Spawn

end WasixLibc
