/-
Paths relative to a preopened directory.

A path is made absolute in a static buffer, looked up, and what is left of it
is copied to the buffer of the caller.  Each copy checks the memory it writes
to, so that one out of bounds would be a fault of the call.
-/
import WasixLibc.NulString
import WasixLibc.PreopenLookup

namespace WasixLibc

namespace Preopens

structure CString where
  bytes : Str
  nul_not_mem : NUL ∉ bytes

/-- What one call depends on: the answer of the host's `getcwd` to a buffer of
256 bytes, the allocations it may make, the byte in front of an empty current
directory, and what fresh memory contains. -/
structure Env where
  getcwd : Option CString
  mallocCwd : Bool := true
  reallocAbs : Bool := true
  reallocRel : Bool := true
  byteBefore : UInt8 := 0
  junk : UInt8 := 0
  reentrant : Bool := true

/-- The static variables; `cwd` is `__wasilibc_cwd`, `none` if it is null. -/
structure State where
  cwd : Option CString := some ⟨[SLASH], by decide⟩
  isSynced : Bool := false
  makeAbsoluteBuf : Str := []
  makeAbsoluteLen : Nat := 0

/-- `*relative_buf` and `*relative_buf_len`. -/
structure RelativeBuf where
  data : Str
  len : Nat

inductive Fault where
  | overflow
  | nullDeref
deriving Repr, DecidableEq

/-- A copy that must fit. -/
def strcpy (memory : Str) (offset : Nat) (s : Str) : Except Fault Str :=
  match copyString NUL memory offset s with
  | some memory' => .ok memory'
  | none => .error .overflow

/-- The old contents are kept, as far as they fit. -/
def realloc (memory : Str) (size : Nat) (junk : UInt8) : Str :=
  memory.take size ++ List.replicate (size - memory.length) junk

/-- `path[0] == 0 || !strcmp(path, ".") || !strcmp(path, "./")` -/
def isCurrent (path : Str) : Bool := path == [] || path == [DOT] || path == [DOT, SLASH]

/-- The part of `make_absolute` that asks the host; `none` if it refuses. -/
def syncCwd (env : Env) (st : State) : Option State :=
  if st.isSynced then some st
  else
    env.getcwd.map fun cwd =>
      { st with cwd := if env.mallocCwd then some cwd else none, isSynced := true }

/-- `path[0] == '.' && path[1] == '/'` -/
def dropDotSlash (path : Str) : Str :=
  if [DOT, SLASH].isPrefixOf path then path.drop 2 else path

/-- 1 if the current directory does not end in a slash. -/
def needSlash (env : Env) (cwd : Str) : Nat :=
  if cwd.getLast?.getD env.byteBefore = SLASH then 0 else 1

/-- The part of `make_absolute` that builds the path in the buffer. -/
def appendToCwd (env : Env) (path : Str) (st : State) :
    Except Fault (Option Str × State) :=
  match st.cwd with
  | none => .error .nullDeref
  | some ⟨cwd, _⟩ => do
      let allocLen := cwd.length + path.length + 1 + needSlash env cwd
      if st.makeAbsoluteLen < allocLen && !env.reallocAbs then
        return (none, st)
      let st :=
        if st.makeAbsoluteLen < allocLen then
          { st with
            makeAbsoluteBuf := realloc st.makeAbsoluteBuf allocLen env.junk
            makeAbsoluteLen := allocLen }
        else st
      let buf ← strcpy st.makeAbsoluteBuf 0 cwd
      if env.reentrant && isCurrent path then
        return (some (readString NUL buf), { st with makeAbsoluteBuf := buf })
      let buf ← if needSlash env cwd = 1 then strcpy buf cwd.length [SLASH] else pure buf
      let buf ← strcpy buf (cwd.length + needSlash env cwd) path
      return (some (readString NUL buf), { st with makeAbsoluteBuf := buf })

/-- `none` is a null pointer. -/
def makeAbsolute (env : Env) (path : Str) (st : State) : Except Fault (Option Str × State) :=
  match syncCwd env st with
  | none => .ok (none, st)
  | some st =>
      if slashAt path 0 then .ok (some path, st)
      else if !env.reentrant && isCurrent path then .ok (st.cwd.map CString.bytes, st)
      else appendToCwd env (dropDotSlash path) st

/-- The descriptor and the prefix, if the call succeeds, or `errno`. -/
abbrev Answer := Except Errno (BitVec 32 × Str)

/-- The copy of the relative path to the buffer of the caller. -/
def copyRelative (env : Env) (found : Found) (canRealloc : Bool) (rel : RelativeBuf) :
    Except Fault (Answer × RelativeBuf) :=
  let relLen := found.relativePath.length
  if rel.len < relLen + 1 then
    if !canRealloc then .ok (.error .erange, rel)
    else if !env.reallocRel then .ok (.error .enomem, rel)
    else do
      let data ← strcpy (realloc rel.data (relLen + 1) env.junk) 0 found.relativePath
      return (.ok (found.fd, found.absPrefix), ⟨data, relLen + 1⟩)
  else do
    let data ← strcpy rel.data 0 found.relativePath
    return (.ok (found.fd, found.absPrefix), { rel with data := data })

/-- `__wasilibc_find_relpath_alloc`. -/
def findRelpathAlloc (env : Env) (preopens : List Preopen) (path : CString) (canRealloc : Bool)
    (st : State) (rel : RelativeBuf) : Except Fault (Answer × State × RelativeBuf) := do
  let (abspath, st) ← makeAbsolute env path.bytes st
  match abspath with
  | none => return (.error .enomem, st, rel)
  | some abspath =>
      match findAbspath preopens abspath with
      | .error e => return (.error e, st, rel)
      | .ok found =>
          let (answer, rel) ← copyRelative env found canRealloc rel
          return (answer, st, rel)

end Preopens

end WasixLibc
