/-
`writeback`, the pool of free pages, and the entry points `mmap`, `munmap`
and `msync`.

The answers of the host are inputs.  A call makes at most one `realloc`,
`memory.grow`, `malloc` and `dup`, and any number of `pread`s and `pwrite`s,
whose answers are consumed from a list.  A call whose list runs out has not
returned yet, which is what a loop the host never lets go of looks like after
any finite number of answers.
-/
import WasixLibc.MmanState

namespace WasixLibc

namespace Mman

/-- Why a call has no result: the answers ran out, or `abort()` was called. -/
inductive Stop where
  | starved
  | aborted
deriving Repr, DecidableEq

abbrev PwriteAnswers := List (HostResult Nat)
abbrev PreadAnswers := List (HostResult (List UInt8))

/-- The answers of the host to the calls one entry point makes.
`memoryGrow` is the old memory size in pages, `none` for a failed grow. -/
structure Answers where
  realloc : Bool := true
  memoryGrow : Option Nat := none
  preads : PreadAnswers := []
  malloc : Bool := true
  dup : HostResult Nat := .err (.other 0)
  pwrites : PwriteAnswers := []

def State.setErrno (e : Errno) (st : State) : State := { st with errno := e }

def State.record (call : HostCall) (st : State) : State :=
  { st with calls := st.calls ++ [call] }

/-- The descriptor behind a `file_ref`. -/
def State.frefFd (ptr : Nat) (st : State) : Nat :=
  ((st.frefs.find? fun f => f.ptr == ptr).map FileRef.fd).getD 0

/-- The loop of `writeback`, one `pwrite` a turn; `true` is a return of 0.
A `pwrite` never reports more bytes than it was given. -/
def writebackLoop (ptr fd : Nat) :
    PwriteAnswers → Nat → Nat → Int → State →
      Except Stop (Bool × PwriteAnswers × State)
  | ans, _, 0, _, st => .ok (true, ans, st)
  | [], _, _ + 1, _, _ => .error .starved
  | .err e :: ans, body, remaining + 1, off, st =>
      let st := (st.record (.pwrite ptr fd body (remaining + 1) off (.err e))).setErrno e
      if e = .eintr then writebackLoop ptr fd ans body (remaining + 1) off st
      else .ok (false, ans, st)
  | .ok count :: ans, body, remaining + 1, off, st =>
      let n := min count (remaining + 1)
      let st := st.record (.pwrite ptr fd body (remaining + 1) off (.ok n))
      writebackLoop ptr fd ans (body + n) (remaining + 1 - n) (off + n) st

/-- Write the overlap of `[start, stop)` with `r` back to its file, clipped to
the bytes the file backs. -/
def writeback (r : Region) (start stop : Nat) (ans : PwriteAnswers) (st : State) :
    Except Stop (Bool × PwriteAnswers × State) :=
  if r.clipBacked stop ≤ start then .ok (true, ans, st)
  else
    match r.fref with
    | none => .ok (true, ans, { st with dangling := true })
    | some ptr =>
        writebackLoop ptr (st.frefFd ptr) ans start (r.clipBacked stop - start)
          (r.off + ((start - r.base : Nat) : Int))
          { st with dangling := st.dangling || !st.frefs.any (fun f => f.ptr == ptr) }

/-- The merge loop of `coalesce_around`.  A merge removes a region and any
other turn advances, so `nregs` bounds the turns. -/
def coalesceLoop (stop : Nat) : Nat → Nat → State → State
  | 0, _, st => st
  | fuel + 1, i, st =>
      match st.regs[i]?, st.regs[i + 1]? with
      | some r, some next =>
          if r.base ≤ stop then
            if r.kind = .rFree ∧ next.kind = .rFree ∧ r.endAddr = next.base then
              let merged := { r with
                len := wrap (r.len + next.len)
                dirty := r.dirty || next.dirty }
              coalesceLoop stop fuel i (removeAt (i + 1) (setAt i merged st))
            else coalesceLoop stop fuel (i + 1) st
          else st
      | _, _ => st

/-- Merge adjacent free regions in the vicinity of `[start, stop)`. -/
def coalesceAround (start stop : Nat) (st : State) : State :=
  coalesceLoop stop st.regs.length (firstOverlap start st.regs - 1) st

/-- `sbrk`: `memory.grow` in whole pages; shrinking and odd increments abort,
and an increment of zero only asks for the memory size, which cannot fail. -/
def sbrk (increment : Int) (grow : Option Nat) (st : State) :
    Except Stop (Option Nat × State) :=
  let st := st.record (.sbrk increment)
  if increment = 0 then .ok (some (wrap (grow.getD 0 * PAGE)), st)
  else if increment % PAGE ≠ 0 then .error .aborted
  else if increment < 0 then .error .aborted
  else
    match grow with
    | none => .ok (none, st.setErrno .enomem)
    | some old =>
        let base := wrap (old * PAGE)
        .ok (some base, { st with grown := (base, increment.toNat) :: st.grown })

/-- Conversion of a `size_t` to `intptr_t`. -/
def toIntptr (n : Nat) : Int := if n < 2147483648 then n else (n : Int) - 4294967296

/-- A region in live use, as `acquire_pages` leaves it. -/
def liveRegion (base len : Nat) (kind : Kind) (prot flags : BitVec 32) : Region :=
  { base := base, len := len, kind := kind, dirty := false, prot := prot,
    flags := flags, fref := none, off := 0, dataLen := 0 }

/-- Take `len` bytes of pool pages, first fit over free regions, else grow
linear memory.  The result is the index of the new region. -/
def acquirePages (len : Nat) (kind : Kind) (prot flags : BitVec 32)
    (grow : Option Nat) (st : State) : Except Stop (Option Nat × State) :=
  match st.regs.findIdx? fun r => decide (r.kind = .rFree) && decide (len ≤ r.len) with
  | some i =>
      match st.regs[i]? with
      | none => .ok (none, st)
      | some r =>
          -- take from the front, keep the rest free
          let st :=
            if len < r.len then
              insertAt i { r with len := len }
                (setAt i { r with base := wrap (r.base + len), len := r.len - len } st)
            else st
          let st := setAt i (liveRegion r.base len kind prot flags) st
          .ok (some i, clearDirty r.dirty r.base len st)
  | none => do
      match ← sbrk (toIntptr len) grow st with
      | (none, st) => .ok (none, st.setErrno .enomem)
      | (some grown, st) =>
          let i := firstOverlap grown st.regs
          .ok (some i, insertAt i (liveRegion grown len kind prot flags) st)

/-- One live region of the unmap loop: the four ways `[start, stop)` can cut
it.  The result carries the index the loop continues at. -/
def unmapRegion (start stop i : Nat) (r : Region) (st : State) : Nat × State :=
  let rend := r.endAddr
  let ostart := r.ostart start
  let oend := r.oend stop
  if ostart = r.base ∧ oend = rend then
    -- whole region unmapped
    let st := if r.kind = .rFile then frefRelease r.fref st else st
    (i + 1, setAt i (r.toFree r.len) st)
  else if ostart = r.base then
    -- head unmapped; tail survives
    (i + 2, insertAt (i + 1) (r.tailFrom oend)
      (setAt i (r.toFree (wrapSub oend r.base)) st))
  else if oend = rend then
    -- tail unmapped; head survives
    (i + 2, insertAt (i + 1) (freedRegion ostart (wrapSub rend ostart))
      (setAt i (r.headTo ostart) st))
  else
    -- middle unmapped; head and tail survive
    let st := if r.kind = .rFile then frefRetain r.fref st else st
    (i + 3, insertAt (i + 2) (r.tailFrom oend)
      (insertAt (i + 1) (freedRegion ostart (wrapSub oend ostart))
        (setAt i (r.headTo ostart) st)))

/-- Best-effort writeback of the part of `r` that is about to be freed; the
result of `writeback` is ignored. -/
def unmapWriteback (start stop : Nat) (r : Region) (ans : PwriteAnswers) (st : State) :
    Except Stop (PwriteAnswers × State) :=
  if r.isSharedWritable then do
    let (_, ans, st) ← writeback r (r.ostart start) (r.oend stop) ans st
    .ok (ans, st)
  else .ok (ans, st)

/-- The loop of `unmap_range`.  Every turn leaves one more of the regions
present at the start behind it, so `nregs` bounds the turns. -/
def unmapLoop (start stop : Nat) :
    Nat → Nat → PwriteAnswers → State → Except Stop (PwriteAnswers × State)
  | 0, _, ans, st => .ok (ans, st)
  | fuel + 1, i, ans, st =>
      match st.regs[i]? with
      | none => .ok (ans, st)
      | some r =>
          if r.base < stop then
            if r.kind = .rFree then unmapLoop start stop fuel (i + 1) ans st
            else do
              let (ans, st) ← unmapWriteback start stop r ans st
              let (i, st) := unmapRegion start stop i r st
              unmapLoop start stop fuel i ans st
          else .ok (ans, st)

/-- Unmap `[start, stop)`: live pages become free dirty pool pages, gaps and
free pages are skipped. -/
def unmapRange (start stop : Nat) (ans : PwriteAnswers) (st : State) :
    Except Stop State := do
  let (_, st) ← unmapLoop start stop st.regs.length (firstOverlap start st.regs) ans st
  .ok (coalesceAround start stop st)

/-- The argument checks of `mmap` made before the lock is taken. -/
def mmapCheck (length prot flags : BitVec 32) (fd offset : Int) : Option Errno :=
  if flags &&& (MAP_PRIVATE ||| MAP_SHARED) = 0 ∨ flags &&& MAP_FIXED ≠ 0 ∨
      flags &&& MAP_SHARED_VALIDATE = MAP_SHARED_VALIDATE ∨
      flags &&& MAP_GROWSDOWN ≠ 0 ∨ flags &&& MAP_HUGETLB ≠ 0 ∨
      flags &&& MAP_FIXED_NOREPLACE ≠ 0 then some .einval
  else if prot = PROT_NONE ∨ prot &&& PROT_EXEC ≠ 0 then some .einval
  else if length = 0 then some .einval
  else if PTRDIFF_MAX ≤ length.toNat then some .enomem
  else if flags &&& MAP_ANON = 0 ∧ fd < 0 then some .ebadf
  else if flags &&& MAP_ANON = 0 ∧ (offset < 0 ∨ offset % PAGE ≠ 0) then some .einval
  else if pageCeil length.toNat < length.toNat then some .enomem
  else none

/-- The loop that fills a file mapping; `none` is a failed `pread`, else the
number of bytes read.  A `pread` delivers at most the bytes asked for. -/
def preadLoop (fd : Int) :
    PreadAnswers → Nat → Nat → Int → Nat → State → Except Stop (Option Nat × State)
  | _, _, 0, _, total, st => .ok (some total, st)
  | [], _, _ + 1, _, _, _ => .error .starved
  | .err e :: ans, body, remaining + 1, off, total, st =>
      let st := (st.record (.pread fd body (remaining + 1) off (.err e))).setErrno e
      if e = .eintr then preadLoop fd ans body (remaining + 1) off total st
      else .ok (none, st)
  | .ok bytes :: ans, body, remaining + 1, off, total, st =>
      let bytes := bytes.take (remaining + 1)
      let n := bytes.length
      let st := storeBytes body bytes
        (st.record (.pread fd body (remaining + 1) off (.ok bytes)))
      if n = 0 then .ok (some total, st)
      else preadLoop fd ans (body + n) (remaining + 1 - n) (off + n) (total + n) st

/-- Assignment of one field of `regs[idx]`. -/
def updateAt (idx : Nat) (f : Region → Region) (st : State) : State :=
  { st with regs := st.regs.modify idx f }

/-- The failure exits of `mmap` after its pages were acquired. -/
def undoMap (base len : Nat) (saved : Errno) (pwrites : PwriteAnswers) (st : State) :
    Except Stop (Option Nat × State) := do
  let st ← unmapRange base (wrap (base + len)) pwrites st
  .ok (none, st.setErrno saved)

/-- A new `file_ref` around a descriptor. -/
def addRef (newfd : Nat) (st : State) : State :=
  { st with
    frefs := { ptr := st.nextPtr, fd := newfd, refs := 1 } :: st.frefs
    nextPtr := st.nextPtr + 1
    openFds := newfd :: st.openFds }

/-- A shared writable mapping keeps a duplicate of its descriptor.  `malloc`
and `dup` are both undone when one of them fails. -/
def attachRef (idx base len : Nat) (fd : Int) (ans : Answers) (st : State) :
    Except Stop (Option Nat × State) :=
  if ans.malloc then
    match ans.dup with
    | .err e =>
        undoMap base len e ans.pwrites ((st.record (.dup fd (.err e))).setErrno e)
    | .ok newfd =>
        .ok (some base, updateAt idx (fun r => { r with fref := some st.nextPtr })
          (addRef newfd (st.record (.dup fd (.ok newfd)))))
  else undoMap base len .enomem ans.pwrites (st.setErrno .enomem)

/-- The file offset and the backed length of a mapping once it is read. -/
def Region.backedBy (off : Int) (total : Nat) (r : Region) : Region :=
  { r with off := off, dataLen := total }

/-- Populate a file mapping from its file. -/
def populate (idx base len : Nat) (prot flags : BitVec 32) (fd offset : Int)
    (ans : Answers) (st : State) : Except Stop (Option Nat × State) := do
  match ← preadLoop fd ans.preads base len offset 0 st with
  | (none, st) => undoMap base len st.errno ans.pwrites st
  | (some total, st) =>
      let st := updateAt idx (Region.backedBy offset total) st
      if flags &&& MAP_SHARED ≠ 0 ∧ prot &&& PROT_WRITE ≠ 0 then
        attachRef idx base len fd ans st
      else .ok (some base, st)

/-- `mmap`; `none` is `MAP_FAILED`.  The address hint is unused. -/
def mmap (length prot flags : BitVec 32) (fd offset : Int) (ans : Answers)
    (st : State) : Except Stop (Option Nat × State) :=
  match mmapCheck length prot flags fd offset with
  | some e => .ok (none, st.setErrno e)
  | none =>
      let len := pageCeil length.toNat
      let anon := decide (flags &&& MAP_ANON ≠ 0)
      match reserve 2 ans.realloc st with
      | (false, st) => .ok (none, st.setErrno .enomem)
      | (true, st) => do
          let kind := if anon then Kind.rAnon else Kind.rFile
          match ← acquirePages len kind prot flags ans.memoryGrow st with
          | (none, st) => .ok (none, st.setErrno .enomem)
          | (some idx, st) =>
              let base := ((st.regs[idx]?).map Region.base).getD 0
              if anon then .ok (some base, st)
              else populate idx base len prot flags fd offset ans st

/-- `munmap`; the result is the return value `0` or `-1`. -/
def munmap (addr length : BitVec 32) (ans : Answers) (st : State) :
    Except Stop (Int × State) :=
  let start := addr.toNat
  let len := pageCeil length.toNat
  if start % PAGE ≠ 0 ∨ length = 0 then .ok (-1, st.setErrno .einval)
  else if len < length.toNat ∨ wrap (start + len) < start then
    .ok (-1, st.setErrno .einval)
  else
    match reserve 2 ans.realloc st with
    | (false, st) => .ok (-1, st.setErrno .enomem)
    | (true, st) => do
        let st ← unmapRange start (wrap (start + len)) ans.pwrites st
        .ok (0, st)

/-- The first pass of `msync`: is `[cursor, stop)` covered by live regions
from index `i` on? -/
def coverLoop (regs : List Region) (stop : Nat) : Nat → Nat → Nat → Bool
  | 0, _, _ => false
  | fuel + 1, i, cursor =>
      if cursor < stop then
        match regs[i]? with
        | none => false
        | some r =>
            if r.kind = .rFree ∨ cursor < r.base then false
            else coverLoop regs stop fuel (i + 1) r.endAddr
      else true

/-- The second pass of `msync`; `result` becomes `-1` when a writeback fails
and the pass goes on. -/
def msyncLoop (start stop : Nat) :
    List Region → Int → PwriteAnswers → State → Except Stop (Int × State)
  | [], result, _, st => .ok (result, st)
  | r :: rest, result, ans, st =>
      if r.base < stop then
        if r.isSharedWritable then do
          let (done, ans, st) ← writeback r (r.ostart start) (r.oend stop) ans st
          msyncLoop start stop rest (if done then result else -1) ans st
        else msyncLoop start stop rest result ans st
      else .ok (result, st)

def msync (addr length flags : BitVec 32) (ans : Answers) (st : State) :
    Except Stop (Int × State) :=
  let start := addr.toNat
  let len := pageCeil length.toNat
  if start % PAGE ≠ 0 ∨ (flags &&& MS_ASYNC ≠ 0 ∧ flags &&& MS_SYNC ≠ 0) ∨
      flags &&& ~~~(MS_ASYNC ||| MS_SYNC ||| MS_INVALIDATE) ≠ 0 then
    .ok (-1, st.setErrno .einval)
  else if length = 0 then .ok (0, st)
  else if len < length.toNat ∨ wrap (start + len) < start then
    .ok (-1, st.setErrno .enomem)
  else
    let stop := wrap (start + len)
    let first := firstOverlap start st.regs
    if coverLoop st.regs stop (st.regs.length + 1) first start then
      msyncLoop start stop (st.regs.drop first) 0 ans.pwrites st
    else .ok (-1, st.setErrno .enomem)

end Mman

end WasixLibc
