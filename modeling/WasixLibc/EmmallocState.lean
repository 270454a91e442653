/-
The heap of the small allocator, and how it grows.

A region carries its size at both ends, so the regions on both sides of it are
found from its address; here they are its neighbours among all regions, which
are listed by address.  The circular list of a bucket is listed from the `next`
of its sentinel on.  Addresses and sizes are numbers below 2^32, except that a
block may end at 2^32, which is 0 as a pointer.
-/
import WasixLibc.FiledBins
import WasixLibc.MmanCalls

namespace WasixLibc

namespace Emmalloc

open Mman (wrap wrapSub toIntptr)

abbrev PAGE_SIZE : Nat := 0x10000
/-- The pages of a 32-bit memory. -/
abbrev MAX_PAGES : Nat := 0x10000
abbrev NUM_FREE_BUCKETS : Nat := 64
abbrev MALLOC_ALIGNMENT : Nat := 16
abbrev MAX_ALLOC_SIZE : Nat := 0xFFFFFFC7
/-- `sizeof(Region)` -/
abbrev REGION_SIZE : Nat := 16
abbrev REGION_HEADER_SIZE : Nat := 8
abbrev SMALLEST_ALLOCATION_SIZE : Nat := 8
abbrev POINTER_SIZE : Nat := 4

/-- `(ptr + (alignment - 1)) & ~(alignment - 1)` for a power of two. -/
def alignUp (ptr alignment : Nat) : Nat := wrap (ptr + (alignment - 1)) / alignment * alignment

/-- `(val & (val - 1)) == 0` -/
def isPowerOf2 (val : Nat) : Bool := val &&& (val - 1) == 0

/-- Of the used regions, the first and the last of a block are not handed out. -/
inductive Kind where
  | root
  | used
  | free
  | sentinel
deriving Repr, DecidableEq

structure Region where
  addr : Nat
  size : Nat
  kind : Kind
deriving Repr, DecidableEq

def Region.stop (r : Region) : Nat := r.addr + r.size

/-- `region_payload_start_ptr` -/
def Region.payloadStart (r : Region) : Nat := r.addr + POINTER_SIZE

/-- `region_payload_end_ptr` -/
def Region.payloadEnd (r : Region) : Nat := r.addr + r.size - POINTER_SIZE

structure RootRegion where
  start : Nat
  endPtr : Nat
deriving Repr, DecidableEq

structure Heap where
  heapBase : Nat
  pages : Nat
  listOfAllRegions : List RootRegion
  regions : List Region
  freeRegionBuckets : Nat → List Nat
  freeRegionBucketsUsed : BitVec 64

/-- What the linker sets up: the heap starts inside the initial memory. -/
structure Image where
  heapBase : Nat
  pages : Nat
  aligned : heapBase % MALLOC_ALIGNMENT = 0
  base_pos : 0 < heapBase
  base_le : heapBase ≤ pages * PAGE_SIZE
  pages_le : pages ≤ MAX_PAGES

def Image.start (image : Image) : Heap where
  heapBase := image.heapBase
  pages := image.pages
  listOfAllRegions := []
  regions := []
  freeRegionBuckets := fun _ => []
  freeRegionBucketsUsed := 0

/-- Ways not to return: `abort`, a sum with a pointer that leaves the address
space, a header that is read or written where no region has one, and a division
by zero. -/
inductive Fault where
  | abort
  | wrapped (ptr : Nat)
  | wild
  | trap
deriving Repr, DecidableEq

/-- `__builtin_clz` -/
def clz (n : Nat) : Nat := 31 - Nat.log2 n

/-- Sizes are at least 8. -/
def computeFreeListBucket (allocSize : Nat) : Nat :=
  if allocSize < 128 then (allocSize >>> 3) - 1
  else if clz allocSize > 19 then
    110 - (clz allocSize <<< 2) + ((allocSize >>> (29 - clz allocSize)) ^^^ 4)
  else
    min (71 - (clz allocSize <<< 1) + ((allocSize >>> (30 - clz allocSize)) ^^^ 2))
      (NUM_FREE_BUCKETS - 1)

def Region.bucket (r : Region) : Nat := computeFreeListBucket (r.size - REGION_HEADER_SIZE)

/-- `((BUCKET_BITMASK_T)1) << bucketIndex` -/
def bucketBit (bucketIndex : Nat) : BitVec 64 := 1#64 <<< bucketIndex

def unlinkFromFreeList (region : Region) (h : Heap) : Heap :=
  { h with freeRegionBuckets := FiledBins.remove h.freeRegionBuckets region.addr }

def linkToFreeList (freeRegion : Region) (h : Heap) : Heap :=
  { h with
    freeRegionBuckets := FiledBins.file h.freeRegionBuckets freeRegion.bucket freeRegion.addr
    freeRegionBucketsUsed := h.freeRegionBucketsUsed ||| bucketBit freeRegion.bucket }

/-- In front of the sentinel of a bucket, that is, at its end. -/
def prependToFreeList (region : Region) (bucketIndex : Nat) (h : Heap) : Heap :=
  { h with
    freeRegionBuckets := FiledBins.append h.freeRegionBuckets bucketIndex region.addr }

/-! Memory from the host -/

/-- What happens at a call of `sbrk`: the pages other users take before it, and
whether the host refuses to grow the memory. -/
structure Growth where
  others : Nat
  refused : Bool
deriving Repr, DecidableEq

/-- Others grow the memory, up to its limit. -/
def takePages (others : Nat) (h : Heap) : Heap :=
  { h with pages := min MAX_PAGES (h.pages + others) }

/-- `__builtin_wasm_memory_grow`, with the pages before. -/
def memoryGrow (delta : Nat) (refused : Bool) (h : Heap) : Option (Nat × Heap) :=
  if refused || MAX_PAGES < h.pages + delta then none
  else some (h.pages, { h with pages := h.pages + delta })

def sbrk (increment : Int) (growth : Growth) (h : Heap) : Except Fault (Option Nat × Heap) :=
  let h := takePages growth.others h
  if increment = 0 then .ok (some (wrap (h.pages * PAGE_SIZE)), h)
  else if increment % PAGE_SIZE ≠ 0 then .error .abort
  else if increment < 0 then .error .abort
  else
    match memoryGrow (increment.toNat / PAGE_SIZE) growth.refused h with
    | none => .ok (none, h)
    | some (old, h) => .ok (some (old * PAGE_SIZE), h)

/-- What `claim_more_memory` added, and the free region it left for it. -/
structure Claimed where
  startPtr : Nat
  endPtr : Nat
  region : Region
deriving Repr, DecidableEq

/-- The end sentinel of a block. -/
def endSentinel (endPtr : Nat) : Region := ⟨wrapSub endPtr REGION_SIZE, REGION_SIZE, .sentinel⟩

/-- The rest of `claim_more_memory` for `len` bytes from `startPtr` on, if they
are the first of a new block. -/
def startBlock (startPtr len : Nat) (h : Heap) : Except Fault (Claimed × Heap) :=
  -- the headers of a shorter block would lie outside of it
  if len < 3 * REGION_SIZE then .error .wild
  else
    let sentinel := endSentinel (startPtr + len)
    let root : Region := ⟨startPtr, REGION_SIZE, .root⟩
    let free : Region := ⟨root.stop, sentinel.addr - root.stop, .free⟩
    .ok (⟨startPtr, startPtr + len, free⟩, linkToFreeList free
      { h with
        listOfAllRegions := ⟨startPtr, startPtr + len⟩ :: h.listOfAllRegions
        regions := h.regions ++ [root, free, sentinel] })

/-- The same if the bytes follow the block of `root`.  Its last region is
extended if it is free, else its end sentinel is swallowed. -/
def extendBlock (root : RootRegion) (len : Nat) (older : List RootRegion) (h : Heap) :
    Except Fault (Claimed × Heap) :=
  let sentinel := endSentinel (root.endPtr + len)
  let roots := { root with endPtr := root.endPtr + len } :: older
  match h.regions.reverse with
  | prevEndSentinel :: prevRegion :: before =>
      if prevRegion.kind = .free then
        let free := { prevRegion with size := sentinel.addr - prevRegion.addr }
        .ok (⟨root.endPtr, root.endPtr + len, free⟩, linkToFreeList free
          (unlinkFromFreeList prevRegion
            { h with
              listOfAllRegions := roots
              regions := before.reverse ++ [free, sentinel] }))
      else if len < REGION_SIZE then .error .wild
      else
        let free : Region :=
          ⟨prevEndSentinel.addr, sentinel.addr - prevEndSentinel.addr, .free⟩
        .ok (⟨root.endPtr, root.endPtr + len, free⟩, linkToFreeList free
          { h with
            listOfAllRegions := roots
            regions := before.reverse ++ [prevRegion, free, sentinel] })
  | _ => .error .wild

/-- Enter the memory into the heap. -/
def addMemory (startPtr len : Nat) (h : Heap) : Except Fault (Claimed × Heap) :=
  match h.listOfAllRegions with
  | [] => if startPtr = 0 then .error .wild else startBlock startPtr len h
  | root :: older =>
      if startPtr = wrap root.endPtr then extendBlock root len older h
      else startBlock startPtr len h

/-- Claim memory via `sbrk`. -/
def claimViaSbrk (numBytes : Nat) (growth : Growth) (h : Heap) :
    Except Fault (Option Claimed × Heap) :=
  match sbrk (toIntptr numBytes) growth h with
  | .error fault => .error fault
  | .ok (none, h) => .ok (none, h)
  | .ok (some startPtr, h) =>
      match addMemory startPtr numBytes h with
      | .error fault => .error fault
      | .ok (claimed, h) => .ok (some claimed, h)

/-- `(numBytes + (PAGE_SIZE - 1)) & -PAGE_SIZE` -/
def pageCeil (numBytes : Nat) : Nat := wrap (numBytes + (PAGE_SIZE - 1)) / PAGE_SIZE * PAGE_SIZE

/-- `claim_more_memory`: `none` is its failure.  The first call takes the initial
heap, up to the end of the memory, if that is large enough. -/
def claimMoreMemory (numBytes : Nat) (probe growth : Growth) (h : Heap) :
    Except Fault (Option Claimed × Heap) :=
  match h.listOfAllRegions with
  | _ :: _ => claimViaSbrk (pageCeil numBytes) growth h
  | [] =>
      match sbrk 0 probe h with
      | .error fault => .error fault
      | .ok (none, h) => claimViaSbrk (pageCeil numBytes) growth h
      | .ok (some heapEnd, h) =>
          if numBytes ≤ wrapSub heapEnd h.heapBase then
            match addMemory h.heapBase (wrapSub heapEnd h.heapBase) h with
            | .error fault => .error fault
            | .ok (claimed, h) => .ok (some claimed, h)
          else claimViaSbrk (pageCeil numBytes) growth h

end Emmalloc

end WasixLibc
