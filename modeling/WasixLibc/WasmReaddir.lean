/-
`readdir` where `size_t` has 32 bits.

The size of an entry and the size of a buffer that grows are taken modulo
2^32.  A call may come back, or be caught in the loop that doubles a size that
has become 0, or search a name that is longer than any object can be.
-/
import Mathlib.Data.Nat.Bitwise
import WasixLibc.BoundedLoop
import WasixLibc.DirentCursor
import WasixLibc.WasmDirent

namespace WasixLibc

namespace Dirent

/-- `offsetof(struct dirent, d_name)` -/
abbrev NAME_OFFSET : Nat := 9

/-- `struct dirent`, with the string in `d_name`. -/
structure DirentObject where
  dIno : BitVec 64
  dType : BitVec 8
  dName : Name
deriving Repr, DecidableEq

abbrev DT_SOCK : BitVec 8 := 255

abbrev S_IFMT : BitVec 32 := 0xe000

/-- `__wasilibc_iftodt` -/
def iftodt (x : BitVec 32) : BitVec 8 :=
  if x = 0x4000 then 3
  else if x = 0x2000 then 2
  else if x = 0x6000 then 1
  else if x = 0x8000 then 4
  else if x = 0xc000 then 6
  else if x = 0xa000 then 7
  else if x = 0xe000 then DT_SOCK
  else 0

/-- The types of sockets of the host are 5, 6, 8 and 9. -/
def socketType (dType : BitVec 8) : BitVec 8 :=
  if dType ∈ [5, 6, 8, 9] then DT_SOCK else dType

/-- `struct _DIR`, and how often the allocator and the host have been asked. -/
structure Dir extends Cursor where
  direntSize : Nat
  allocs : Nat
  reads : Nat

/-- `rewinddir` -/
def rewinddir (dirp : Dir) : Dir :=
  { dirp with
    cookie := DIRCOOKIE_START
    bufferUsed := dirp.bufferSize
    bufferProcessed := dirp.bufferSize }

namespace Wasm32

/-- `SIZE_MAX + 1` -/
abbrev SIZE_RANGE : Nat := 4294967296

/-- `while (new_size < target_size) new_size *= 2`, at most so many times. -/
def double : Nat → Nat → Nat → Option Nat
  | 0, newSize, targetSize => if newSize < targetSize then none else some newSize
  | n + 1, newSize, targetSize =>
      if newSize < targetSize then double n (newSize * 2 % SIZE_RANGE) targetSize
      else some newSize

/-- What has not ended after 32 rounds does not end: the size is 0 then. -/
def growSize (size targetSize : Nat) : Option Nat := double 32 size targetSize

/-- What becomes of a size in `GROW`. -/
inductive Growth where
  | enough
  | resized (newSize : Nat)
  | enomem
  | endless
deriving Repr, DecidableEq

/-- `GROW`, if `realloc` succeeds or not. -/
def grow (alloc : Bool) (size targetSize : Nat) : Growth :=
  if size < targetSize then
    match growSize size targetSize with
    | none => .endless
    | some newSize => if alloc then .resized newSize else .enomem
  else .enough

/-- What becomes of a call to `readdir`. -/
inductive Outcome where
  | returned (result : Except Errno (Option DirentObject))
  | endless
  /-- The size of an entry has wrapped round.  From there on `readdir` takes
  what is behind the buffer for a name. -/
  | overrun

/-- A round of the loop, and the stream after it. -/
abbrev Turn := Round Dir (Outcome × Dir)

/-- The label `read_entries`. -/
def readEntries (env : RawEnv) (dirp : Dir) : Turn :=
  match env.hostError dirp.reads with
  | some e =>
      .done (.returned (.error e), { dirp with
        bufferUsed := dirp.bufferSize
        bufferProcessed := dirp.bufferSize
        reads := dirp.reads + 1 })
  | none =>
      .again { dirp with
        toCursor := dirp.toCursor.fill (env.listing.read dirp.cookie dirp.bufferSize)
        reads := dirp.reads + 1 }

/-- The entry is skipped; the cookie stays. -/
def skip (dirp : Dir) (entrySize : Nat) : Turn :=
  .again { dirp with bufferProcessed := dirp.bufferProcessed + entrySize }

/-- The inode number and the type, if the file has to be looked up for them. -/
def lookUp (stat : Name → Except Errno (BitVec 64 × BitVec 32)) (entry : Header) (name : Name) :
    Except Errno (BitVec 64 × BitVec 8) :=
  if entry.dIno = 0 ∧ name ≠ [DOT, DOT] then
    match stat name with
    | .error e => .error e
    | .ok (stIno, stMode) => .ok (stIno, iftodt (stMode &&& S_IFMT))
  else .ok (entry.dIno, entry.dType)

/-- The end of a round, with an object that is large enough. -/
def returnDirent (env : RawEnv) (entry : Header) (name : Name) (dirp : Dir) : Turn :=
  let dirent : DirentObject := { dIno := 0, dType := socketType entry.dType, dName := name }
  match lookUp env.stat entry name with
  | .error .enoent => skip dirp (HEADER_SIZE + entry.dNamlen.toNat)
  | .error e => .done (.returned (.error e), dirp)
  | .ok (dIno, dType) =>
      .done (.returned (.ok (some { dirent with dIno := dIno, dType := dType })),
        { dirp with toCursor := dirp.toCursor.advance entry })

/-- The part of a round that builds the object. -/
def returnEntry (env : RawEnv) (entry : Header) (dirp : Dir) : Turn :=
  let name := dirp.name entry.dNamlen.toNat
  if NUL ∈ name then skip dirp (HEADER_SIZE + entry.dNamlen.toNat)
  else
    match grow (env.alloc dirp.allocs) dirp.direntSize
        ((NAME_OFFSET + entry.dNamlen.toNat + 1) % SIZE_RANGE) with
    | .endless => .done (.endless, dirp)
    | .enomem => .done (.returned (.error .enomem), dirp)
    | .resized newSize =>
        returnDirent env entry name { dirp with
          direntSize := newSize
          allocs := dirp.allocs + 1 }
    | .enough => returnDirent env entry name dirp

/-- The entry is cut off. -/
def readAgain (env : RawEnv) (entrySize : Nat) (dirp : Dir) : Turn :=
  match grow (env.alloc dirp.allocs) dirp.bufferSize entrySize with
  | .endless => .done (.endless, dirp)
  | .enomem => .done (.returned (.error .enomem), dirp)
  | .resized newSize =>
      readEntries env { dirp with
        toCursor := dirp.toCursor.grow newSize
        allocs := dirp.allocs + 1 }
  | .enough => readEntries env dirp

/-- One round of the loop of `readdir`. -/
def round (env : RawEnv) (dirp : Dir) : Turn :=
  let bufferLeft := dirp.bufferUsed - dirp.bufferProcessed
  if bufferLeft < HEADER_SIZE then
    if dirp.bufferUsed < dirp.bufferSize then .done (.returned (.ok none), dirp)
    else readEntries env dirp
  else
    let entry := dirp.header
    let entrySize := (HEADER_SIZE + entry.dNamlen.toNat) % SIZE_RANGE
    if entry.dNamlen = 0 then skip dirp entrySize
    else if bufferLeft < entrySize then readAgain env entrySize dirp
    -- the sum has wrapped round, and `memchr` is given more than is left of the buffer
    else if bufferLeft < HEADER_SIZE + entry.dNamlen.toNat then .done (.overrun, dirp)
    else returnEntry env entry dirp

/-- `fdopendir` -/
def fdopendir (env : RawEnv) : Except Errno Dir :=
  if !env.alloc 0 then .error .enomem
  else if !env.alloc 1 then .error .enomem
  else
    match env.hostError 0 with
    | some e => .error e
    | none =>
        let data := env.listing.read DIRCOOKIE_START DEFAULT_BUFFER_SIZE
        .ok {
          cookie := DIRCOOKIE_START
          buffer := data ++ List.replicate (DEFAULT_BUFFER_SIZE - data.length) 0
          bufferProcessed := 0
          bufferSize := DEFAULT_BUFFER_SIZE
          bufferUsed := data.length
          direntSize := 1
          allocs := 2
          reads := 1 }

/-- `telldir`, with the 64-bit cookie as a `long`. -/
def telldir (dirp : Dir) : BitVec 32 := dirp.cookie.setWidth 32

/-- `seekdir` -/
def seekdir (dirp : Dir) (loc : BitVec 32) : Dir :=
  { dirp with
    cookie := loc.setWidth 64
    bufferUsed := dirp.bufferSize
    bufferProcessed := dirp.bufferSize }

/-! The loop that doubles -/

theorem double_zero (n : Nat) {targetSize : Nat} (hpos : 0 < targetSize) :
    double n 0 targetSize = none := by
  induction n with
  | zero => exact if_pos hpos
  | succ n ih =>
      rw [double, if_pos hpos]
      exact ih

end Wasm32

end Dirent

end WasixLibc
