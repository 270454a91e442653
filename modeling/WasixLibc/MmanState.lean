/-
Data model of the userspace mmap emulation on wasm32.

All mappings live in one table of regions sorted by base.  `size_t` and
`uintptr_t` are natural numbers below `2 ^ 32`; every sum of the source that
can leave that range is wrapped explicitly.  File offsets are integers.
-/
import WasixLibc.Bisect

namespace WasixLibc

namespace Mman

/-- The wasm page size, which is also `sysconf(_SC_PAGESIZE)`. -/
abbrev PAGE : Nat := 65536

/-- Reduction of an address or size to 32 bits. -/
def wrap (n : Nat) : Nat := n % 4294967296

/-- 32-bit subtraction. -/
def wrapSub (a b : Nat) : Nat := (4294967296 + a - b) % 4294967296

/-- `(n + PAGE - 1) & ~(PAGE - 1)`: the mask clears the remainder modulo the
page size. -/
def pageCeil (n : Nat) : Nat := wrap (PAGE - 1 + n) / PAGE * PAGE

abbrev MAP_SHARED : BitVec 32 := 0x01
abbrev MAP_PRIVATE : BitVec 32 := 0x02
abbrev MAP_SHARED_VALIDATE : BitVec 32 := 0x03
abbrev MAP_FIXED : BitVec 32 := 0x10
abbrev MAP_ANON : BitVec 32 := 0x20
abbrev MAP_GROWSDOWN : BitVec 32 := 0x0100
abbrev MAP_HUGETLB : BitVec 32 := 0x40000
abbrev MAP_FIXED_NOREPLACE : BitVec 32 := 0x100000
abbrev PROT_NONE : BitVec 32 := 0
abbrev PROT_WRITE : BitVec 32 := 2
abbrev PROT_EXEC : BitVec 32 := 4
abbrev MS_ASYNC : BitVec 32 := 1
abbrev MS_INVALIDATE : BitVec 32 := 2
abbrev MS_SYNC : BitVec 32 := 4

/-- `PTRDIFF_MAX` of a 32-bit target. -/
abbrev PTRDIFF_MAX : Nat := 2147483647

/-- The error numbers the code names; a host call may report any other. -/
inductive Errno where
  | eintr
  | einval
  | enomem
  | ebadf
  | other (code : Nat)
deriving Repr, DecidableEq

/-- What a host call answers: a value, or `-1` with `errno` set. -/
inductive HostResult (α : Type) where
  | ok (value : α)
  | err (errno : Errno)
deriving Repr, DecidableEq

/-- `struct file_ref`.  `ptr` is the identity of the allocation; identities
are not reused, and the code never looks at a pointer it has freed. -/
structure FileRef where
  ptr : Nat
  fd : Nat
  refs : Nat
deriving Repr, DecidableEq

inductive Kind where
  | rFree
  | rAnon
  | rFile
deriving Repr, DecidableEq

/-- `struct region`. -/
structure Region where
  base : Nat
  len : Nat
  kind : Kind
  dirty : Bool := false
  prot : BitVec 32 := 0
  flags : BitVec 32 := 0
  fref : Option Nat := none
  off : Int := 0
  dataLen : Nat := 0
deriving Repr, DecidableEq

/-- `base + len` as the code computes it: a region that ends with the last
byte of the address space has end `0`. -/
def Region.endAddr (r : Region) : Nat := wrap (r.base + r.len)

/-- The test guarding every writeback of a region. -/
def Region.isSharedWritable (r : Region) : Bool :=
  decide (r.kind = .rFile) && r.fref.isSome && decide (r.prot &&& PROT_WRITE ≠ 0)

/-- `ostart` and `oend`: the overlap of a region with `[start, stop)`. -/
def Region.ostart (r : Region) (start : Nat) : Nat :=
  if start < r.base then r.base else start

def Region.oend (r : Region) (stop : Nat) : Nat :=
  if r.endAddr < stop then r.endAddr else stop

/-- `if (end > backed_end) end = backed_end`. -/
def Region.clipBacked (r : Region) (stop : Nat) : Nat :=
  if wrap (r.base + r.dataLen) < stop then wrap (r.base + r.dataLen) else stop

/-- The fragment of `r` that survives below `ostart`. -/
def Region.headTo (r : Region) (ostart : Nat) : Region :=
  let len := wrapSub ostart r.base
  { r with
    len := len
    dataLen := if r.kind = .rFile then min r.dataLen len else r.dataLen }

/-- The fragment of `r` that survives from `oend` on; a file mapping advances
its offset and loses the backed bytes that were cut off. -/
def Region.tailFrom (r : Region) (oend : Nat) : Region :=
  let cut := wrapSub oend r.base
  { r with
    base := oend
    len := wrapSub r.endAddr oend
    off := if r.kind = .rFile then r.off + (cut : Int) else r.off
    dataLen := if r.kind = .rFile then r.dataLen - cut else r.dataLen }

/-- `r` itself turned into a free region of `len` bytes. -/
def Region.toFree (r : Region) (len : Nat) : Region :=
  { r with len := len, kind := .rFree, dirty := true, fref := none }

/-- A new free region; the fields the initialiser leaves out are zero. -/
def freedRegion (base len : Nat) : Region :=
  { base := base, len := len, kind := .rFree, dirty := true }

/-- The host calls made on descriptors.  A `pwrite` and a `close` carry the
identity of the `file_ref` they were made through. -/
inductive HostCall where
  | sbrk (increment : Int)
  | pread (fd : Int) (buf nbyte : Nat) (off : Int)
      (result : HostResult (List UInt8))
  | pwrite (ref fd buf nbyte : Nat) (off : Int) (result : HostResult Nat)
  | dup (fd : Int) (result : HostResult Nat)
  | close (ref fd : Nat)
deriving Repr, DecidableEq

/-- The static data of the module, the linear memory, and what the host sees
of it: the descriptors `dup` handed out that are still open, the ranges
`sbrk` returned, and the calls made.  `overrun` records a shift past the end
of the region array and `dangling` a use of a freed `file_ref`. -/
structure State where
  regs : List Region := []
  capregs : Nat := 0
  frefs : List FileRef := []
  nextPtr : Nat := 0
  mem : Nat → UInt8 := fun _ => 0
  errno : Errno := .other 0
  openFds : List Nat := []
  grown : List (Nat × Nat) := []
  calls : List HostCall := []
  overrun : Bool := false
  dangling : Bool := false

/-- Index of the first region whose end is above `addr`, `nregs` if none. -/
def firstOverlap (addr : Nat) (regs : List Region) : Nat :=
  bisect (fun mid => regs[mid]?.any fun r => decide (r.endAddr ≤ addr))
    regs.length 0 regs.length

/-- `while (newcap < need) newcap *= 2`. -/
def growCap (need : Nat) : Nat → Nat → Nat
  | 0, newcap => newcap
  | fuel + 1, newcap =>
      if newcap < need then growCap need fuel (newcap * 2) else newcap

/-- Make room for `extra` more regions; `false` is the `-1` of the source. -/
def reserve (extra : Nat) (realloc : Bool) (st : State) : Bool × State :=
  if st.regs.length + extra ≤ st.capregs then (true, st)
  else
    let need := st.regs.length + extra
    let newcap := if st.capregs = 0 then 16 else st.capregs * 2
    if realloc then (true, { st with capregs := growCap need need newcap })
    else (false, st)

def insertAt (i : Nat) (r : Region) (st : State) : State :=
  { st with
    regs := st.regs.insertIdx i r
    overrun := st.overrun || decide (st.capregs ≤ st.regs.length) }

def removeAt (i : Nat) (st : State) : State :=
  { st with regs := st.regs.eraseIdx i }

/-- Assignment through `regs[i]`. -/
def setAt (i : Nat) (r : Region) (st : State) : State :=
  { st with regs := st.regs.set i r }

/-- `--fref->refs`, closing the descriptor and freeing the block at zero. -/
def frefRelease (fref : Option Nat) (st : State) : State :=
  match fref with
  | none => st
  | some ptr =>
      match st.frefs.find? (fun f => f.ptr == ptr) with
      | none => { st with dangling := true }
      | some f =>
          if f.refs = 1 then
            { st with
              frefs := st.frefs.filter (fun g => g.ptr != ptr)
              openFds := st.openFds.erase f.fd
              calls := st.calls ++ [.close ptr f.fd] }
          else
            { st with
              frefs := st.frefs.map fun g =>
                if g.ptr = ptr then { g with refs := g.refs - 1 } else g }

/-- `if (tail.fref) tail.fref->refs++`. -/
def frefRetain (fref : Option Nat) (st : State) : State :=
  match fref with
  | none => st
  | some ptr =>
      { st with
        frefs := st.frefs.map fun g =>
          if g.ptr = ptr then { g with refs := g.refs + 1 } else g
        dangling := st.dangling || !st.frefs.any (fun f => f.ptr == ptr) }

/-- `memset((void *)base, 0, len)`. -/
def memsetZero (base len : Nat) (st : State) : State :=
  { st with mem := fun a => if base ≤ a ∧ a < base + len then 0 else st.mem a }

/-- `if (dirty) memset((void *)base, 0, len)`. -/
def clearDirty (dirty : Bool) (base len : Nat) (st : State) : State :=
  if dirty then memsetZero base len st else st

/-- The bytes a successful `pread` leaves at `buf`. -/
def storeBytes (buf : Nat) (bytes : List UInt8) (st : State) : State :=
  { st with
    mem := fun a =>
      if buf ≤ a then (bytes[a - buf]?).getD (st.mem a) else st.mem a }

end Mman

end WasixLibc
