/-
Allocating, freeing and resizing regions of the small allocator.

A test that passes only because a pointer sum has wrapped ends in a fault: what
follows it in the source writes outside of the region.
-/
import WasixLibc.BoundedLoop
import WasixLibc.EmmallocState

namespace WasixLibc

namespace Emmalloc

open Mman (wrap)

/-- The regions on both sides of the one at an address. -/
structure Spot where
  before : List Region
  region : Region
  behind : List Region

def Heap.spot (addr : Nat) (h : Heap) : Option Spot :=
  match h.regions.dropWhile (fun r => r.addr != addr) with
  | [] => none
  | region :: behind => some ⟨h.regions.takeWhile (fun r => r.addr != addr), region, behind⟩

/-- The region gets `bump` bytes of the one behind it. -/
def Region.extend (bump : Nat) (r : Region) : Region := { r with size := r.size + bump }

/-- The region `r` is moved behind `bump` bytes, to the region in front of it, and
`size` bytes of payload are carved off; the rest is a free region if it is large
enough for one. -/
def carve (bump size : Nat) (spot : Spot) (h : Heap) : Nat × Heap :=
  let addr := spot.region.addr + bump
  let regionSize := spot.region.size - bump
  let before := spot.before.modifyLast (Region.extend bump)
  if REGION_SIZE + REGION_HEADER_SIZE + size ≤ regionSize then
    let used : Region := ⟨addr, size + REGION_HEADER_SIZE, .used⟩
    let free : Region := ⟨used.stop, regionSize - size - REGION_HEADER_SIZE, .free⟩
    (addr + POINTER_SIZE,
      linkToFreeList free { h with regions := before ++ used :: free :: spot.behind })
  else
    (addr + POINTER_SIZE, { h with regions := before ++ ⟨addr, regionSize, .used⟩ :: spot.behind })

/-- `attempt_allocate`: `none` is `NULL`. -/
def attemptAllocate (freeRegion alignment size : Nat) (h : Heap) :
    Except Fault (Option Nat × Heap) :=
  match h.spot freeRegion with
  | none => .error .wild
  | some spot =>
      let payloadStart := spot.region.payloadStart
      let payloadStartAligned := alignUp payloadStart alignment
      if spot.region.payloadEnd < wrap (payloadStartAligned + size) then .ok (none, h)
      else if payloadStartAligned < payloadStart ∨
          spot.region.payloadEnd < payloadStartAligned + size then .error (.wrapped payloadStart)
      else
        let (ptr, h) := carve (payloadStartAligned - payloadStart) size spot
          (unlinkFromFreeList spot.region h)
        .ok (some ptr, h)

def validateAllocAlignment (alignment : Nat) : Nat := max alignment MALLOC_ALIGNMENT

def validateAllocSize (size : Nat) : Nat :=
  if SMALLEST_ALLOCATION_SIZE < size then alignUp size POINTER_SIZE
  else SMALLEST_ALLOCATION_SIZE

/-- The indices of the bits set in `freeRegionBucketsUsed >> bucketIndex`. -/
def usedBuckets (bucketIndex : Nat) (h : Heap) : List Nat :=
  (List.range NUM_FREE_BUCKETS).filter fun i =>
    decide (bucketIndex ≤ i) && h.freeRegionBucketsUsed.getLsbD i

/-- The first region of each bucket is tried.  One that is too small goes to the
end of its bucket, and the bit of an empty bucket is reset. -/
def searchBuckets (alignment size : Nat) : List Nat → Heap → Except Fault (Option Nat × Heap)
  | [], h => .ok (none, h)
  | bucketIndex :: rest, h =>
      match h.freeRegionBuckets bucketIndex with
      | [] =>
          searchBuckets alignment size rest
            { h with
              freeRegionBucketsUsed := h.freeRegionBucketsUsed &&& ~~~bucketBit bucketIndex }
      | freeRegion :: _ =>
          match attemptAllocate freeRegion alignment size h with
          | .error fault => .error fault
          | .ok (some ptr, h) => .ok (some ptr, h)
          | .ok (none, h) =>
              match h.spot freeRegion with
              | none => .error .wild
              | some spot =>
                  searchBuckets alignment size rest
                    (prependToFreeList spot.region bucketIndex (unlinkFromFreeList spot.region h))

/-- The regions are tried in turn. -/
def tryRegions (alignment size : Nat) : List Nat → Heap → Except Fault (Option Nat × Heap)
  | [], h => .ok (none, h)
  | freeRegion :: rest, h =>
      match attemptAllocate freeRegion alignment size h with
      | .error fault => .error fault
      | .ok (some ptr, h) => .ok (some ptr, h)
      | .ok (none, h) => tryRegions alignment size rest h

/-- The regions of the largest bucket whose bit is set. -/
def largestBucket (h : Heap) : List Nat :=
  if h.freeRegionBucketsUsed = 0 then []
  else h.freeRegionBuckets (Nat.log2 h.freeRegionBucketsUsed.toNat)

abbrev maxRegionsToTryBeforeGivingUp : Nat := 99

/-- How many regions of the largest bucket are tried before more memory is
claimed. -/
def numTries (h : Heap) : Nat :=
  if h.freeRegionBucketsUsed >>> 30 = 0 then 0 else maxRegionsToTryBeforeGivingUp

/-- A call of `claim_more_memory`, with the heap it was made in. -/
structure Claim where
  heap : Heap
  claimed : Option Claimed

/-- `allocate_memory` calls itself again with these arguments. -/
structure Attempt where
  alignment : Nat
  size : Nat
  heap : Heap
  claims : List Claim

structure Outcome where
  ptr : Option Nat
  heap : Heap
  claims : List Claim

/-- How `allocate_memory` goes on when no region was found: more memory is
claimed, and if there is none, the rest of the largest bucket is tried. -/
def claimOrRetry (host : Nat → Growth × Growth) (s : Attempt) :
    Round Attempt (Except Fault Outcome) :=
  let (probe, growth) := host s.claims.length
  match claimMoreMemory (s.size + 3 * REGION_SIZE) probe growth s.heap with
  | .error fault => .done (.error fault)
  | .ok (some claimed, h) =>
      .again { s with heap := h, claims := s.claims ++ [⟨s.heap, some claimed⟩] }
  | .ok (none, h) =>
      .done <|
        match tryRegions s.alignment s.size ((largestBucket h).drop (numTries h)) h with
        | .error fault => .error fault
        | .ok (ptr, h) => .ok ⟨ptr, h, s.claims ++ [⟨s.heap, none⟩]⟩

/-- One level of `allocate_memory`, whose recursion is in tail position. -/
def allocateRound (host : Nat → Growth × Growth) (s : Attempt) :
    Round Attempt (Except Fault Outcome) :=
  if !isPowerOf2 s.alignment then .done (.ok ⟨none, s.heap, s.claims⟩)
  else if MAX_ALLOC_SIZE < s.size then .done (.ok ⟨none, s.heap, s.claims⟩)
  else
    let alignment := validateAllocAlignment s.alignment
    let size := validateAllocSize s.size
    match searchBuckets alignment size
        (usedBuckets (computeFreeListBucket size) s.heap) s.heap with
    | .error fault => .done (.error fault)
    | .ok (some ptr, h) => .done (.ok ⟨some ptr, h, s.claims⟩)
    | .ok (none, h) =>
        match tryRegions alignment size ((largestBucket h).take (numTries h)) h with
        | .error fault => .done (.error fault)
        | .ok (some ptr, h) => .done (.ok ⟨some ptr, h, s.claims⟩)
        | .ok (none, h) => claimOrRetry host ⟨alignment, size, h, s.claims⟩

/-- `allocate_memory`, with at most `depth` calls inside one another. -/
def allocateMemory (host : Nat → Growth × Growth) (depth alignment size : Nat) (h : Heap) :
    Option (Except Fault Outcome) :=
  Round.loop (allocateRound host) depth ⟨alignment, size, h, []⟩

/-- A free region on the left side becomes a part of the region. -/
def mergeLeft (spot : Spot) (h : Heap) : Spot × Heap :=
  match spot.before.getLast? with
  | none => (spot, h)
  | some prevRegion =>
      if prevRegion.kind = .free then
        ({ spot with
            before := spot.before.dropLast
            region := { spot.region with
              addr := prevRegion.addr
              size := spot.region.size + prevRegion.size } },
          unlinkFromFreeList prevRegion h)
      else (spot, h)

/-- A free region on the right side becomes a part of the region. -/
def mergeRight (spot : Spot) (h : Heap) : Spot × Heap :=
  match spot.behind with
  | [] => (spot, h)
  | nextRegion :: behind =>
      if nextRegion.kind = .free then
        ({ spot with
            region := { spot.region with size := spot.region.size + nextRegion.size }
            behind := behind },
          unlinkFromFreeList nextRegion h)
      else (spot, h)

/-- `emmalloc_free` of a region that is in use. -/
def emmallocFree (ptr : Nat) (h : Heap) : Except Fault Heap :=
  if ptr = 0 then .ok h
  else
    match h.spot (ptr - POINTER_SIZE) with
    | none => .error .wild
    | some spot =>
        if spot.region.kind ≠ .used then .error .wild
        else
          let (spot, h) := mergeLeft spot h
          let (spot, h) := mergeRight spot h
          let free := { spot.region with kind := .free }
          .ok (linkToFreeList free { h with regions := spot.before ++ free :: spot.behind })

/-- `attempt_region_resize` of a region that is in use. -/
def attemptRegionResize (addr size : Nat) (h : Heap) : Except Fault (Bool × Heap) :=
  match h.spot addr with
  | some ⟨before, region, nextRegion :: behind⟩ =>
      let used : Region := { region with size := size }
      if region.kind ≠ .used then .error .wild
      else if nextRegion.kind = .free then
        let newNextRegionStart := wrap (region.addr + size)
        if wrap (newNextRegionStart + REGION_SIZE) ≤ nextRegion.stop then
          if nextRegion.stop < used.stop + REGION_SIZE then .error (.wrapped region.addr)
          else
            let free : Region := ⟨used.stop, nextRegion.stop - used.stop, .free⟩
            .ok (true, linkToFreeList free (unlinkFromFreeList nextRegion
              { h with regions := before ++ used :: free :: behind }))
        else if newNextRegionStart ≤ nextRegion.stop then
          if nextRegion.stop < used.stop then .error (.wrapped region.addr)
          else
            .ok (true, unlinkFromFreeList nextRegion
              { h with
                regions :=
                  before ++ { region with size := region.size + nextRegion.size } :: behind })
        else .ok (false, h)
      else if size + REGION_SIZE ≤ region.size then
        let free : Region := ⟨used.stop, region.size - size, .free⟩
        .ok (true, linkToFreeList free
          { h with regions := before ++ used :: free :: nextRegion :: behind })
      else .ok (decide (size ≤ region.size), h)
  | _ => .error .wild

/-! The calls of a program -/

/-- `emmalloc_memalign`; the first `none` is a recursion deeper than `depth`. -/
def emmallocMemalign (host : Nat → Growth × Growth) (depth alignment size : Nat) (h : Heap) :
    Option (Except Fault (Option Nat × Heap)) :=
  match allocateMemory host depth alignment size h with
  | none => none
  | some (.error fault) => some (.error fault)
  | some (.ok out) => some (.ok (out.ptr, out.heap))

/-- `emmalloc_aligned_realloc` -/
def emmallocAlignedRealloc (host : Nat → Growth × Growth) (depth ptr alignment size : Nat)
    (h : Heap) : Option (Except Fault (Option Nat × Heap)) :=
  if ptr = 0 then emmallocMemalign host depth alignment size h
  else if size = 0 then
    match emmallocFree ptr h with
    | .error fault => some (.error fault)
    | .ok h => some (.ok (none, h))
  else if MAX_ALLOC_SIZE < size then some (.ok (none, h))
  else
    let size := validateAllocSize size
    match attemptRegionResize (ptr - POINTER_SIZE) (size + REGION_HEADER_SIZE) h with
    | .error fault => some (.error fault)
    | .ok (true, h) => some (.ok (some ptr, h))
    | .ok (false, h) =>
        match emmallocMemalign host depth alignment size h with
        | none => none
        | some (.error fault) => some (.error fault)
        | some (.ok (none, h)) => some (.ok (none, h))
        | some (.ok (some newptr, h)) =>
            match emmallocFree ptr h with
            | .error fault => some (.error fault)
            | .ok h => some (.ok (some newptr, h))

/-- The exported functions, and other users of `sbrk`. -/
inductive Call where
  | malloc (size : Nat)
  | calloc (num size : Nat)
  | alignedAlloc (alignment size : Nat)
  | posixMemalign (alignment size : Nat)
  | realloc (ptr size : Nat)
  | free (ptr : Nat)
  | others (pages : Nat)

def exec (host : Nat → Growth × Growth) (depth : Nat) (call : Call) (h : Heap) :
    Option (Except Fault (Option Nat × Heap)) :=
  match call with
  | .malloc size => emmallocMemalign host depth MALLOC_ALIGNMENT size h
  | .calloc num size => emmallocMemalign host depth MALLOC_ALIGNMENT (wrap (num * size)) h
  | .alignedAlloc alignment size =>
      if alignment % POINTER_SIZE ≠ 0 then some (.ok (none, h))
      else if alignment = 0 then some (.error .trap)
      else if size % alignment ≠ 0 then some (.ok (none, h))
      else emmallocMemalign host depth alignment size h
  | .posixMemalign alignment size =>
      if alignment % POINTER_SIZE ≠ 0 then some (.ok (none, h))
      else emmallocMemalign host depth alignment size h
  | .realloc ptr size => emmallocAlignedRealloc host depth ptr MALLOC_ALIGNMENT size h
  | .free ptr =>
      match emmallocFree ptr h with
      | .error fault => some (.error fault)
      | .ok h => some (.ok (none, h))
  | .others pages => some (.ok (none, takePages pages h))

/-- A call that returns, whatever the host does. -/
inductive Step (h : Heap) (call : Call) : Heap → Prop where
  | returns {host : Nat → Growth × Growth} {depth : Nat} {ptr : Option Nat} {h' : Heap}
      (hcall : exec host depth call h = some (.ok (ptr, h'))) : Step h call h'

end Emmalloc

end WasixLibc
