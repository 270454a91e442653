/-
A directory read at once.

The reader has a buffer and a cookie of its own.  What it has open or allocated
is kept track of, so that an exit that leaves something behind shows.  Sizes
have 32 bits, as in the stream.
-/
import Mathlib.Data.Multiset.AddSub
import WasixLibc.WasmReaddir

namespace WasixLibc

namespace Dirent

/-- What a call may have open or allocated; an entry is known by the number of
its allocation. -/
inductive Block where
  | fd
  | buffer
  | array
  | dirent (id : Nat)
deriving Repr, DecidableEq

/-- `qsort` with some comparison: a permutation. -/
structure Sorter where
  sort : List DirentObject → List DirentObject
  perm : ∀ l, (sort l).Perm l

/-- The variables of a call; `dirents` is the used part of the array. -/
structure Scan extends Cursor where
  dirents : List (Nat × DirentObject)
  direntsSize : Nat
  held : Multiset Block
  allocs : Nat
  reads : Nat

/-- What becomes of a call. -/
inductive ScanEnd where
  /-- It returns -1 with `errno`, or the entries, and leaves this open or
  allocated. -/
  | returned (result : Except Errno (List DirentObject)) (held : Multiset Block)
  | endless
  /-- The size of an entry or of the array has wrapped round.  From there on
  memory is used that is not in the buffer or the array. -/
  | overrun

/-- A round of the loop. -/
abbrev ScanTurn := Round Scan ScanEnd

/-- The entries of the array, as what is allocated for them. -/
def Scan.direntBlocks (st : Scan) : Multiset Block :=
  (st.dirents.map fun entry => Block.dirent entry.1 : List Block)

/-- What is left of what is held by the label `bad`. -/
def Scan.cleanUp (st : Scan) : Multiset Block :=
  st.held - st.direntBlocks - {.array} - {.buffer} - {.fd}

/-- The label `bad`. -/
def Scan.bad (e : Errno) (st : Scan) : ScanTurn := .done (.returned (.error e) st.cleanUp)

/-- What follows the loop. -/
def Scan.finish (compar : Sorter) (st : Scan) : ScanTurn :=
  .done (.returned (.ok (compar.sort (st.dirents.map Prod.snd))) (st.held - {.buffer} - {.fd}))

/-- The label `read_entries`. -/
def scanEntries (env : Env) (st : Scan) : ScanTurn :=
  match env.hostError st.reads with
  | some e => st.bad e
  | none =>
      .again { st with
        toCursor := st.toCursor.fill (fdReaddir env.listing st.cookie st.bufferSize)
        reads := st.reads + 1 }

/-- `sizeof(*dirents)` -/
abbrev DIRENT_POINTER_SIZE : Nat := 4

/-- The entry is put in the array, which grows if it is full. -/
def Scan.collect (env : Env) (id : Nat) (object : DirentObject) (st : Scan) : ScanTurn :=
  if st.dirents.length = st.direntsSize then
    let direntsSize := if st.direntsSize < 8 then 8 else st.direntsSize * 2
    if Wasm32.SIZE_RANGE ≤ direntsSize * DIRENT_POINTER_SIZE then .done .overrun
    else if env.alloc st.allocs then
      .again { st with
        dirents := st.dirents ++ [(id, object)]
        direntsSize := direntsSize
        held := if st.direntsSize = 0 then st.held + {.array} else st.held
        allocs := st.allocs + 1 }
    else Scan.bad .enomem { st with held := st.held - {.dirent id} }
  else .again { st with dirents := st.dirents ++ [(id, object)] }

/-- The inode number and the type, if the file has to be looked up for them. -/
def scanLookUp (stat : Name → Except Errno (BitVec 64 × BitVec 32)) (entry : Header)
    (name : Name) : Except Errno (BitVec 64 × BitVec 8) :=
  if entry.dIno = 0 then
    match stat name with
    | .error e => .error e
    | .ok (stIno, stMode) => .ok (stIno, iftodt (stMode &&& S_IFMT))
  else .ok (entry.dIno, entry.dType)

/-- The part of a round that makes a new entry. -/
def addEntry (env : Env) (sel : DirentObject → Bool) (entry : Header) (name : Name)
    (st : Scan) : ScanTurn :=
  if env.alloc st.allocs then
    let id := st.allocs
    let st := { st with held := st.held + {Block.dirent id}, allocs := st.allocs + 1 }
    match scanLookUp env.stat entry name with
    -- the `return -1` in the loop, which keeps everything
    | .error e => .done (.returned (.error e) st.held)
    | .ok (dIno, dType) =>
        let st := { st with cookie := entry.dNext }
        let object : DirentObject := { dIno := dIno, dType := dType, dName := name }
        if sel object then st.collect env id object
        else .again { st with held := st.held - {Block.dirent id} }
  else st.bad .enomem

/-- The entry is cut off. -/
def scanAgain (env : Env) (entrySize : Nat) (st : Scan) : ScanTurn :=
  match Wasm32.growSize st.bufferSize entrySize with
  | none => .done .endless
  | some newSize =>
      if env.alloc st.allocs then
        scanEntries env { st with
          toCursor := st.toCursor.grow newSize
          allocs := st.allocs + 1 }
      else st.bad .enomem

/-- One round of the loop, with what follows the loop or ends the call. -/
def scanRound (env : Env) (sel : DirentObject → Bool) (compar : Sorter) (st : Scan) : ScanTurn :=
  let bufferLeft := st.bufferUsed - st.bufferProcessed
  if bufferLeft < HEADER_SIZE then
    if st.bufferUsed < st.bufferSize then st.finish compar else scanEntries env st
  else
    let entry := st.header
    let entrySize := (HEADER_SIZE + entry.dNamlen.toNat) % Wasm32.SIZE_RANGE
    if entry.dNamlen = 0 then .again { st with bufferProcessed := st.bufferProcessed + entrySize }
    else if bufferLeft < entrySize then scanAgain env entrySize st
    -- the sum has wrapped round, and `memchr` is given more than is left of the buffer
    else if bufferLeft < HEADER_SIZE + entry.dNamlen.toNat then .done .overrun
    else
      let name := st.name entry.dNamlen.toNat
      let st := { st with bufferProcessed := st.bufferProcessed + entrySize }
      if NUL ∈ name then .again st else addEntry env sel entry name st

/-- `sel_true` -/
def selTrue (_ : DirentObject) : Bool := true

/-- The variables before the loop. -/
def Scan.start : Scan where
  cookie := DIRCOOKIE_START
  buffer := List.replicate DEFAULT_BUFFER_SIZE 0
  bufferProcessed := DEFAULT_BUFFER_SIZE
  bufferSize := DEFAULT_BUFFER_SIZE
  bufferUsed := DEFAULT_BUFFER_SIZE
  dirents := []
  direntsSize := 0
  held := {.fd, .buffer}
  allocs := 1
  reads := 0

/-- `__wasilibc_nocwd_scandirat`, with a bound on the rounds of its loop;
`opened` is what `openat` answers. -/
def scandirat (env : Env) (opened : Except Errno Unit) (sel : Option (DirentObject → Bool))
    (compar : Sorter) (bound : Nat) : Option ScanEnd :=
  match opened with
  | .error e => some (.returned (.error e) 0)
  | .ok () =>
      if env.alloc 0 then
        Round.loop (scanRound env (sel.getD selTrue) compar) bound Scan.start
      else some (.returned (.error .enomem) 0)

end Dirent

end WasixLibc
