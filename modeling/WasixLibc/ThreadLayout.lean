/-
Where `pthread_create` puts the things of a new thread.

The thread-specific data, the thread structure and the TLS block are stacked
from the top down, in the stack of the application if they are small against
it.  The start arguments lie below them, or at the top of that stack, and the
stack of the thread below the arguments.
-/
import WasixLibc.AddressRange

namespace WasixLibc

namespace ThreadLayout

open AddressRange

abbrev Size := BitVec 32

def LINUX_PAGE_SIZE : Size := 4096
def PTHREAD_STACK_MIN : Size := 2048
def SIZE_MAX : Size := 0xffffffff

def ROUND (x : Size) : Size := (x + LINUX_PAGE_SIZE - 1) &&& -LINUX_PAGE_SIZE

/-- `sizeof(struct start_args)` and `alignof(struct start_args)` -/
def startArgsSize : Size := 64
def startArgsAlign : Size := 4

/-- `_Alignof(struct pthread)` -/
def pthreadAlign : Size := 4

/-- What the linker and the compiler decide: `__builtin_wasm_tls_size()` and
`__builtin_wasm_tls_align()`, `sizeof(struct pthread)`, and
`__pthread_tsd_size`, which is 0 in a program without keys. -/
structure Target where
  tlsSize : Size
  tlsAlign : Size
  structPthread : Size
  tsdSize : Size
  tlsAlignLog : Nat
  tlsAlign_eq : tlsAlign.toNat = 2 ^ tlsAlignLog
  structPthread_aligned : structPthread.toNat % 4 = 0
  tsdSize_eq : tsdSize = 0 ∨ tsdSize = 512

namespace Target

variable (t : Target)

/-- `tls_size` and `pthread_size` once the alignments are added. -/
def tlsRoom : Size := t.tlsSize + t.tlsAlign
def pthreadRoom : Size := t.structPthread + pthreadAlign

def need : Size := t.tlsRoom + t.pthreadRoom + t.tsdSize

end Target

structure Attr where
  stacksize : Size
  guardsize : Size
  stackaddr : Size
deriving Repr, DecidableEq

/-- The tests of `pthread_attr_setstack`, `pthread_attr_setstacksize` and
`pthread_attr_setguardsize`. -/
def Attr.Accepted (attr : Attr) : Prop :=
  attr.stacksize - PTHREAD_STACK_MIN ≤ SIZE_MAX / 4 ∧ attr.guardsize ≤ SIZE_MAX / 8

/-- The local variables on the way. -/
structure Locals where
  map : Size
  size : Size
  guard : Size
  tsd : Size
  newPthread : Size
  stack : Size
  stackLimit : Size
deriving Repr, DecidableEq

/-- Up to `if (!tsd)`. -/
def fromAttr (t : Target) (attr : Attr) : Locals :=
  if attr.stackaddr ≠ 0 then
    let size := attr.stacksize
    let stack := attr.stackaddr &&& -16
    let stackLimit := attr.stackaddr - size
    if t.need < size / 8 ∧ t.need < 2048 then
      let tsd := stack - t.tsdSize
      let newPthread := tsd - t.pthreadRoom
      let stack := newPthread - t.tlsRoom
      ⟨0, size, 0, tsd, newPthread, stack, stackLimit⟩
    else ⟨0, ROUND t.need, 0, 0, 0, stack, stackLimit⟩
  else
    let guard := ROUND attr.guardsize
    let size := guard + ROUND (attr.stacksize + t.tlsRoom + t.pthreadRoom + t.tsdSize)
    ⟨0, size, guard, 0, 0, 0, 0⟩

/-- What `malloc` is asked for. -/
def Locals.request (v : Locals) : Size :=
  if v.guard ≠ 0 then v.guard + v.size + v.guard else v.size

/-- `if (!tsd)` and what follows from it. -/
def allocate (malloc : Size → Size) (t : Target) (v : Locals) : Option Locals :=
  if v.tsd ≠ 0 then some v
  else
    let map := malloc v.request
    if map = 0 then none
    else
      let tsd := map + v.guard + v.size - t.tsdSize
      let newPthread := tsd - t.pthreadRoom
      if v.stack = 0 then
        some ⟨map, v.size, v.guard, tsd, newPthread, newPthread - t.tlsRoom, map + v.guard⟩
      else some { v with map := map, tsd := tsd, newPthread := newPthread }

/-- What the new thread is told, or finds in its structure. -/
structure Layout where
  map : Size
  request : Size
  guard : Size
  tsd : Size
  tlsBase : Size
  new : Size
  args : Size
  stack : Size
  stackSize : Size
deriving Repr, DecidableEq

/-- The pointer `new` is moved by whole structures. -/
def place (t : Target) (v : Locals) : Layout :=
  let tlsBase := v.newPthread - t.tlsRoom + t.tlsAlign
  let tlsBase := tlsBase - (tlsBase &&& (t.tlsAlign - 1))
  let new := v.newPthread + pthreadAlign
  let new := new - (new &&& (pthreadAlign - 1)) * t.structPthread
  let stack := v.stack - startArgsSize
  let stack := stack - stack % startArgsAlign
  ⟨v.map, v.request, v.guard, v.tsd, tlsBase, new, stack, stack &&& -16, stack - v.stackLimit⟩

/-- `pthread_create` up to the start of the thread, or `none` without memory. -/
def pthreadCreate (malloc : Size → Size) (t : Target) (attr : Attr) : Option Layout :=
  (allocate malloc t (fromAttr t attr)).map (place t)

/-! Exact sizes -/

def roundUp (n : Nat) : Nat := (n + 4095) / 4096 * 4096

def Target.exactNeed (t : Target) : Nat :=
  t.tlsSize.toNat + t.tlsAlign.toNat + (t.structPthread.toNat + 4) + t.tsdSize.toNat

theorem roundUp_spec (n : Nat) : n ≤ roundUp n ∧ roundUp n % 16 = 0 := by
  unfold roundUp
  omega

theorem toNat_ROUND {x : Size} (h : roundUp x.toNat < 2 ^ 32) :
    (ROUND x).toNat = roundUp x.toNat := by
  unfold roundUp at h
  have hmask : ∀ i < 32, (-LINUX_PAGE_SIZE).getLsbD i = decide (12 ≤ i) := by decide
  have hsum : (x + LINUX_PAGE_SIZE - 1).toNat = x.toNat + 4095 := by
    unfold LINUX_PAGE_SIZE
    bv_omega
  unfold ROUND roundUp
  rw [toNat_and_highMask _ _ hmask, hsum]
  rfl

theorem toNat_and_neg16 (x : Size) : (x &&& -16).toNat = x.toNat / 16 * 16 := by
  have hmask : ∀ i < 32, (-16 : Size).getLsbD i = decide (4 ≤ i) := by decide
  exact toNat_and_highMask x _ hmask

section Exact

variable {t : Target}

theorem toNat_tlsRoom (h : t.exactNeed < 2 ^ 32) :
    t.tlsRoom.toNat = t.tlsSize.toNat + t.tlsAlign.toNat := by
  unfold Target.exactNeed at h
  unfold Target.tlsRoom
  bv_omega

theorem toNat_pthreadRoom (h : t.exactNeed < 2 ^ 32) :
    t.pthreadRoom.toNat = t.structPthread.toNat + 4 := by
  unfold Target.exactNeed at h
  unfold Target.pthreadRoom pthreadAlign
  bv_omega

theorem toNat_need (h : t.exactNeed < 2 ^ 32) : t.need.toNat = t.exactNeed := by
  have htls := toNat_tlsRoom h
  have hpthread := toNat_pthreadRoom h
  unfold Target.exactNeed at h ⊢
  unfold Target.need
  rw [BitVec.toNat_add, BitVec.toNat_add, htls, hpthread]
  omega

theorem tsdSize_mod (t : Target) : t.tsdSize.toNat % 16 = 0 := by
  rcases t.tsdSize_eq with h | h
  · rw [h]
    rfl
  · rw [h]
    rfl

/-! What `place` makes of the variables -/

/-- The thread structure and the data above it end at `top`, with room for the
TLS block below, and the stack has room for the arguments. -/
structure Carved (t : Target) (v : Locals) (top : Nat) : Prop where
  need : t.exactNeed ≤ top
  top_lt : top < 2 ^ 32
  top_aligned : top % 16 = 0
  tsd : v.tsd.toNat = top - t.tsdSize.toNat
  newPthread : v.newPthread.toNat = top - t.tsdSize.toNat - (t.structPthread.toNat + 4)
  room : v.stackLimit.toNat + 67 ≤ v.stack.toNat

section Place

variable {v : Locals} {top : Nat}

theorem place_tlsBase (h : Carved t v top) :
    (place t v).tlsBase.toNat % t.tlsAlign.toNat = 0 ∧
      top - t.exactNeed ≤ (place t v).tlsBase.toNat ∧
        (place t v).tlsBase.toNat + t.tlsSize.toNat ≤ v.newPthread.toNat := by
  have hneed := h.need
  have htop := h.top_lt
  have hroom := toNat_tlsRoom (Nat.lt_of_le_of_lt hneed htop)
  have hnew := h.newPthread
  unfold Target.exactNeed at hneed
  have hbase : (v.newPthread - t.tlsRoom + t.tlsAlign).toNat =
      v.newPthread.toNat - t.tlsSize.toNat := by
    have hle : t.tlsRoom ≤ v.newPthread := by
      rw [BitVec.le_def]
      omega
    rw [BitVec.toNat_add, BitVec.toNat_sub_of_le hle]
    omega
  have hpos : 0 < t.tlsAlign.toNat := t.tlsAlign_eq ▸ Nat.two_pow_pos _
  have hmod := Nat.mod_lt (v.newPthread.toNat - t.tlsSize.toNat) hpos
  have hle := Nat.mod_le (v.newPthread.toNat - t.tlsSize.toNat) t.tlsAlign.toNat
  have hdown : (place t v).tlsBase.toNat = v.newPthread.toNat - t.tlsSize.toNat -
      (v.newPthread.toNat - t.tlsSize.toNat) % t.tlsAlign.toNat := by
    have hmask := toNat_and_sub_one (v.newPthread - t.tlsRoom + t.tlsAlign) t.tlsAlign_eq
    rw [hbase] at hmask
    unfold place
    dsimp only
    rw [BitVec.toNat_sub_of_le, hmask, hbase]
    rw [BitVec.le_def, hmask, hbase]
    exact hle
  refine ⟨?_, ?_, ?_⟩
  · rw [hdown]
    exact Nat.mod_eq_zero_of_dvd (Nat.dvd_sub_mod _)
  · rw [hdown]
    unfold Target.exactNeed
    omega
  · rw [hdown]
    omega

theorem place_new (h : Carved t v top) : (place t v).new.toNat = v.newPthread.toNat + 4 := by
  have hneed := h.need
  have htop := h.top_lt
  have haligned := h.top_aligned
  have hnew := h.newPthread
  have htsd := tsdSize_mod t
  have hpthread := t.structPthread_aligned
  unfold Target.exactNeed at hneed
  have hsum : (v.newPthread + pthreadAlign).toNat = v.newPthread.toNat + 4 := by
    unfold pthreadAlign
    bv_omega
  have hzero : (v.newPthread + pthreadAlign) &&& (pthreadAlign - 1) = 0#32 := by
    have halign : pthreadAlign.toNat = 2 ^ 2 := rfl
    apply BitVec.eq_of_toNat_eq
    rw [toNat_and_sub_one _ halign, hsum, halign, BitVec.toNat_ofNat]
    omega
  unfold place
  dsimp only
  rw [hzero, BitVec.zero_mul, BitVec.sub_zero, hsum]

theorem place_args (h : Carved t v top) :
    (place t v).args.toNat = (v.stack.toNat - 64) / 4 * 4 := by
  have hroom := h.room
  have hsize : startArgsSize ≤ v.stack := by
    rw [BitVec.le_def]
    show 64 ≤ v.stack.toNat
    omega
  have hsub : (v.stack - startArgsSize).toNat = v.stack.toNat - 64 := BitVec.toNat_sub_of_le hsize
  have hmod : ((v.stack - startArgsSize) % startArgsAlign).toNat = (v.stack.toNat - 64) % 4 := by
    rw [BitVec.toNat_umod, hsub]
    rfl
  unfold place
  dsimp only
  rw [BitVec.toNat_sub_of_le, hsub, hmod]
  · omega
  · rw [BitVec.le_def, hmod, hsub]
    exact Nat.mod_le _ _

theorem place_stack (h : Carved t v top) :
    (place t v).stack.toNat = (place t v).args.toNat / 16 * 16 ∧
      v.stackLimit.toNat + (place t v).stackSize.toNat = (place t v).args.toNat := by
  have hargs := place_args h
  have hroom := h.room
  refine ⟨toNat_and_neg16 _, ?_⟩
  have hle : v.stackLimit ≤ (place t v).args := by
    rw [BitVec.le_def, hargs]
    omega
  have hsize : (place t v).stackSize = (place t v).args - v.stackLimit := rfl
  rw [hsize, BitVec.toNat_sub_of_le hle]
  rw [BitVec.le_def] at hle
  omega

end Place

end Exact

/-! What a layout should be -/

/-- `malloc`: memory for any object, none of it at the very end. -/
structure Allocator where
  malloc : Size → Size
  aligned : ∀ n, (malloc n).toNat % 16 = 0
  inside : ∀ n, malloc n ≠ 0 → (malloc n).toNat + n.toNat < 2 ^ 32

def Attr.appStack (attr : Attr) : Interval :=
  ⟨attr.stackaddr.toNat - attr.stacksize.toNat, attr.stacksize.toNat⟩

/-- Attributes that were accepted, sums that fit, and a stack of the
application that is its own. -/
structure Valid (a : Allocator) (t : Target) (attr : Attr) : Prop where
  accepted : attr.Accepted
  fits : if attr.stackaddr ≠ 0 then roundUp t.exactNeed < 2 ^ 32
    else 3 * roundUp attr.guardsize.toNat + roundUp (attr.stacksize.toNat + t.exactNeed) < 2 ^ 32
  stackFits : attr.stackaddr ≠ 0 → attr.stacksize.toNat ≤ attr.stackaddr.toNat
  apart : attr.stackaddr ≠ 0 → ∀ n, a.malloc n ≠ 0 →
    attr.appStack.Apart ⟨(a.malloc n).toNat, n.toNat⟩

section Regions

variable (t : Target) (attr : Attr) (l : Layout)

def Layout.argsRegion : Interval := ⟨l.args.toNat, startArgsSize.toNat⟩

def Layout.dataRegions : List Interval :=
  [⟨l.tlsBase.toNat, t.tlsSize.toNat⟩, ⟨l.new.toNat, t.structPthread.toNat⟩,
    ⟨l.tsd.toNat, t.tsdSize.toNat⟩]

/-- The start arguments and the data of the thread. -/
def Layout.regions : List Interval := l.argsRegion :: l.dataRegions t

/-- The memory of the thread. -/
def Layout.block : Interval := ⟨l.map.toNat, l.request.toNat⟩

/-- `stackSize` bytes below `stack`. -/
def Layout.stackBelow : Interval := ⟨l.stack.toNat - l.stackSize.toNat, l.stackSize.toNat⟩

/-- Where the memory of the stack begins, above the guard if there is one. -/
def lowerLimit : Nat :=
  if attr.stackaddr ≠ 0 then attr.appStack.start else l.map.toNat + l.guard.toNat

/-- In the memory of the thread or in the stack of the application. -/
def Housed (region : Interval) : Prop :=
  (l.map ≠ 0 ∧ region.Within l.block) ∨ (attr.stackaddr ≠ 0 ∧ region.Within attr.appStack)

theorem Housed.mono {attr : Attr} {l : Layout} {region region' : Interval}
    (h : Housed attr l region') (hwithin : region.Within region') : Housed attr l region := by
  rcases h with ⟨hmap, hblock⟩ | ⟨hstack, happ⟩
  · exact Or.inl ⟨hmap, hwithin.trans hblock⟩
  · exact Or.inr ⟨hstack, hwithin.trans happ⟩

structure LayoutOk : Prop where
  apart : (l.regions t).Pairwise Interval.Apart
  housed : ∀ region ∈ l.regions t, Housed attr l region
  argsAligned : l.args.toNat % startArgsAlign.toNat = 0
  tlsAligned : l.tlsBase.toNat % t.tlsAlign.toNat = 0
  newAligned : l.new.toNat % pthreadAlign.toNat = 0
  tsdAligned : l.tsd.toNat % 4 = 0
  stackApart : ∀ region ∈ l.regions t, l.stackBelow.Apart region
  stackAbove : lowerLimit attr l + l.stackSize.toNat ≤ l.stack.toNat

end Regions

section Assemble

variable {t : Target} {attr : Attr} {v : Locals} {top : Nat}

/-- The room below `top` that the data takes. -/
def dataRoom (t : Target) (top : Nat) : Interval := ⟨top - t.exactNeed, t.exactNeed⟩

theorem dataRegions_within (h : Carved t v top) :
    ∀ region ∈ (place t v).dataRegions t, region.Within (dataRoom t top) := by
  obtain ⟨-, hlow, hhigh⟩ := place_tlsBase h
  have hnew := place_new h
  have hneed := h.need
  have htsd : (place t v).tsd.toNat = top - t.tsdSize.toNat := h.tsd
  have hpthread := h.newPthread
  unfold Target.exactNeed at hlow hneed
  intro region hregion
  simp only [Layout.dataRegions, List.mem_cons, List.not_mem_nil, or_false] at hregion
  unfold Interval.Within dataRoom Interval.stop Target.exactNeed
  rcases hregion with rfl | rfl | rfl
  · dsimp only
    omega
  · dsimp only
    omega
  · dsimp only
    omega

theorem dataRegions_apart (h : Carved t v top) :
    ((place t v).dataRegions t).Pairwise Interval.Apart := by
  obtain ⟨-, -, hhigh⟩ := place_tlsBase h
  have hnew := place_new h
  have hneed := h.need
  have htsd : (place t v).tsd.toNat = top - t.tsdSize.toNat := h.tsd
  have hpthread := h.newPthread
  unfold Target.exactNeed at hneed
  simp only [Layout.dataRegions, List.pairwise_cons, List.mem_cons, List.not_mem_nil, or_false,
    forall_eq_or_imp, forall_eq, IsEmpty.forall_iff, implies_true, and_true, List.Pairwise.nil]
  unfold Interval.Apart Interval.stop
  refine ⟨⟨Or.inl ?_, Or.inl ?_⟩, Or.inl ?_⟩
  · dsimp only
    omega
  · dsimp only
    omega
  · dsimp only
    omega

/-- What the three ways to a layout have in common: it is right if nothing but
the lower end of the stack can be wrong. -/
theorem layoutOk_iff (h : Carved t v top)
    (hlimit : lowerLimit attr (place t v) = v.stackLimit.toNat)
    (hdata : Housed attr (place t v) (dataRoom t top))
    (hargs : Housed attr (place t v) (place t v).argsRegion)
    (hargsApart : (place t v).argsRegion.Apart (dataRoom t top))
    (hstackApart : (place t v).stackBelow.Apart (dataRoom t top)) :
    LayoutOk t attr (place t v) ↔ (place t v).args.toNat % 16 = 0 := by
  obtain ⟨htlsAligned, -, -⟩ := place_tlsBase h
  have hargsValue := place_args h
  have hnew := place_new h
  have htsd : (place t v).tsd.toNat = top - t.tsdSize.toNat := h.tsd
  obtain ⟨hstack, hsize⟩ := place_stack h
  have htop := h.top_aligned
  have htsdMod := tsdSize_mod t
  have hwithin := dataRegions_within h
  constructor
  · intro hok
    have habove := hok.stackAbove
    rw [hlimit] at habove
    omega
  · intro hmod
    refine ⟨?_, ?_, ?_, htlsAligned, ?_, ?_, ?_, ?_⟩
    · refine List.pairwise_cons.mpr ⟨fun region hregion => ?_, dataRegions_apart h⟩
      exact (Interval.Within.refl _).apart (hwithin region hregion) hargsApart
    · intro region hregion
      rcases List.mem_cons.mp hregion with rfl | hregion
      · exact hargs
      · exact hdata.mono (hwithin region hregion)
    · show (place t v).args.toNat % 4 = 0
      omega
    · show (place t v).new.toNat % 4 = 0
      have hneed := h.need
      have hpthread := h.newPthread
      have hpthreadMod := t.structPthread_aligned
      unfold Target.exactNeed at hneed
      omega
    · omega
    · intro region hregion
      rcases List.mem_cons.mp hregion with rfl | hregion
      · left
        unfold Interval.stop Layout.stackBelow Layout.argsRegion
        dsimp only
        omega
      · exact (Interval.Within.refl _).apart (hwithin region hregion) hstackApart
    · rw [hlimit]
      omega

end Assemble

/-! The three ways to a layout -/

section Ways

variable {a : Allocator} {t : Target} {attr : Attr} {v : Locals} {l : Layout}

/-- The test of the code for a stack that has the data in it. -/
def HoldsData (t : Target) (attr : Attr) : Prop :=
  t.need < attr.stacksize / 8 ∧ t.need < 2048

theorem Valid.stacksize_le (h : Valid a t attr) : 2048 ≤ attr.stacksize.toNat := by
  have haccepted := h.accepted.1
  have hquarter : SIZE_MAX / 4 = 0x3fffffff := by decide
  rw [hquarter] at haccepted
  unfold PTHREAD_STACK_MIN at haccepted
  bv_omega

theorem Valid.exactNeed_lt (h : Valid a t attr) : t.exactNeed < 2 ^ 32 := by
  have hfits := h.fits
  split at hfits
  · have hup := roundUp_spec t.exactNeed
    omega
  · have hup := roundUp_spec (attr.stacksize.toNat + t.exactNeed)
    omega

theorem fromAttr_ownStack (hstack : attr.stackaddr ≠ 0) (hholds : HoldsData t attr) :
    fromAttr t attr = ⟨0, attr.stacksize, 0, (attr.stackaddr &&& -16) - t.tsdSize,
      (attr.stackaddr &&& -16) - t.tsdSize - t.pthreadRoom,
      (attr.stackaddr &&& -16) - t.tsdSize - t.pthreadRoom - t.tlsRoom,
      attr.stackaddr - attr.stacksize⟩ := by
  unfold fromAttr
  rw [if_pos hstack]
  exact if_pos hholds

theorem fromAttr_appStack (hstack : attr.stackaddr ≠ 0) (hholds : ¬ HoldsData t attr) :
    fromAttr t attr = ⟨0, ROUND t.need, 0, 0, 0, attr.stackaddr &&& -16,
      attr.stackaddr - attr.stacksize⟩ := by
  unfold fromAttr
  rw [if_pos hstack]
  exact if_neg hholds

theorem fromAttr_allocated (hstack : attr.stackaddr = 0) :
    fromAttr t attr = ⟨0, ROUND attr.guardsize +
      ROUND (attr.stacksize + t.tlsRoom + t.pthreadRoom + t.tsdSize),
      ROUND attr.guardsize, 0, 0, 0, 0⟩ := if_neg (not_not_intro hstack)

theorem carve {p : Size} (hneed : t.exactNeed ≤ p.toNat) :
    (p - t.tsdSize).toNat = p.toNat - t.tsdSize.toNat ∧
      (p - t.tsdSize - t.pthreadRoom).toNat =
        p.toNat - t.tsdSize.toNat - (t.structPthread.toNat + 4) ∧
      (p - t.tsdSize - t.pthreadRoom - t.tlsRoom).toNat = p.toNat - t.exactNeed := by
  have hexact : t.exactNeed < 2 ^ 32 := Nat.lt_of_le_of_lt hneed p.isLt
  have hpthreadRoom := toNat_pthreadRoom hexact
  have htlsRoom := toNat_tlsRoom hexact
  unfold Target.exactNeed at hneed
  have htsd : (p - t.tsdSize).toNat = p.toNat - t.tsdSize.toNat := by
    apply BitVec.toNat_sub_of_le
    rw [BitVec.le_def]
    omega
  have hpthread : (p - t.tsdSize - t.pthreadRoom).toNat =
      p.toNat - t.tsdSize.toNat - (t.structPthread.toNat + 4) := by
    rw [BitVec.toNat_sub_of_le, htsd, hpthreadRoom]
    rw [BitVec.le_def, htsd, hpthreadRoom]
    omega
  refine ⟨htsd, hpthread, ?_⟩
  unfold Target.exactNeed
  rw [BitVec.toNat_sub_of_le, hpthread, htlsRoom]
  · omega
  · rw [BitVec.le_def, hpthread, htlsRoom]
    omega

/-- The stack goes on below the data, all of it at home in one place. -/
theorem layoutOk_below {top : Nat} {home : Interval} (h : Carved t v top)
    (hstack : v.stack.toNat = top - t.exactNeed)
    (hlimit : lowerLimit attr (place t v) = v.stackLimit.toNat)
    (hhome : Housed attr (place t v) home) (hstart : home.start ≤ v.stackLimit.toNat)
    (hstop : top ≤ home.stop) :
    LayoutOk t attr (place t v) ↔ t.need.toNat % 16 = 0 ∨ 13 ≤ t.need.toNat % 16 := by
  have hneedLe := h.need
  have hroom := h.room
  have haligned := h.top_aligned
  have hargs := place_args h
  obtain ⟨hstackEnd, hsize⟩ := place_stack h
  have hneed := toNat_need (Nat.lt_of_le_of_lt hneedLe h.top_lt)
  have hargsSize : startArgsSize.toNat = 64 := rfl
  have hdata : Housed attr (place t v) (dataRoom t top) := by
    apply hhome.mono
    unfold Interval.Within Interval.stop dataRoom
    unfold Interval.stop at hstop
    dsimp only
    omega
  have hargsHome : Housed attr (place t v) (place t v).argsRegion := by
    apply hhome.mono
    unfold Interval.Within Interval.stop Layout.argsRegion
    unfold Interval.stop at hstop
    dsimp only
    omega
  have hargsApart : (place t v).argsRegion.Apart (dataRoom t top) := by
    left
    unfold Interval.stop Layout.argsRegion dataRoom
    dsimp only
    omega
  have hstackApart : (place t v).stackBelow.Apart (dataRoom t top) := by
    left
    unfold Interval.stop Layout.stackBelow dataRoom
    dsimp only
    omega
  rw [layoutOk_iff h hlimit hdata hargsHome hargsApart hstackApart]
  omega

/-- The data is put into the stack of the application. -/
theorem layoutOk_ownStack (h : Valid a t attr) (hstack : attr.stackaddr ≠ 0)
    (hholds : HoldsData t attr) (hl : pthreadCreate a.malloc t attr = some l) :
    LayoutOk t attr l ↔ t.need.toNat % 16 = 0 ∨ 13 ≤ t.need.toNat % 16 := by
  have hexact := h.exactNeed_lt
  have hmin := h.stacksize_le
  have hsize := h.stackFits hstack
  have hsmall : t.exactNeed < attr.stacksize.toNat / 8 := by
    rw [← toNat_need hexact]
    exact hholds.1
  have htop := toNat_and_neg16 attr.stackaddr
  have hneedLe : t.exactNeed ≤ (attr.stackaddr &&& -16).toNat := by omega
  obtain ⟨htsd, hpthread, hend⟩ := carve hneedLe
  have hlimit : (attr.stackaddr - attr.stacksize).toNat =
      attr.stackaddr.toNat - attr.stacksize.toNat := BitVec.toNat_sub_of_le hsize
  have htsdSet : (attr.stackaddr &&& -16) - t.tsdSize ≠ 0 := by
    intro hzero
    rw [hzero] at htsd
    have hnone : (0 : Size).toNat = 0 := rfl
    have htsdLe : t.tsdSize.toNat ≤ t.exactNeed := Nat.le_add_left _ _
    omega
  have hv := fromAttr_ownStack hstack hholds
  have hcreate : pthreadCreate a.malloc t attr = some (place t (fromAttr t attr)) := by
    have hset : (fromAttr t attr).tsd ≠ 0 := by
      rw [hv]
      exact htsdSet
    unfold pthreadCreate allocate
    rw [if_pos hset]
    rfl
  rw [hcreate] at hl
  cases hl
  have hcarved : Carved t (fromAttr t attr) (attr.stackaddr &&& -16).toNat := by
    rw [hv]
    refine ⟨hneedLe, BitVec.isLt _, ?_, htsd, hpthread, ?_⟩
    · omega
    · dsimp only
      omega
  have hhome : Housed attr (place t (fromAttr t attr)) attr.appStack :=
    Or.inr ⟨hstack, Interval.Within.refl _⟩
  have hstackLimit : (fromAttr t attr).stackLimit.toNat = attr.appStack.start := by
    rw [hv]
    exact hlimit
  refine layoutOk_below hcarved ?_ ?_ hhome (Nat.le_of_eq hstackLimit.symm) ?_
  · rw [hv]
    exact hend
  · rw [hstackLimit]
    exact if_pos hstack
  · unfold Interval.stop Attr.appStack
    dsimp only
    omega

/-- `map` is the memory for the data, with `top` at its upper end. -/
theorem allocate_of_unset {map : Size} {top : Nat} (htsd : v.tsd = 0)
    (hmap : a.malloc v.request = map) (hne : map ≠ 0)
    (htop : (map + v.guard + v.size).toNat = top) (hneed : t.exactNeed ≤ top) :
    ∃ w, allocate a.malloc t v = some w ∧ w.map = map ∧ w.size = v.size ∧ w.guard = v.guard ∧
      w.tsd.toNat = top - t.tsdSize.toNat ∧
        w.newPthread.toNat = top - t.tsdSize.toNat - (t.structPthread.toNat + 4) ∧
          (v.stack = 0 → w.stack.toNat = top - t.exactNeed ∧ w.stackLimit = map + v.guard) ∧
            (v.stack ≠ 0 → w.stack = v.stack ∧ w.stackLimit = v.stackLimit) := by
  subst htop
  obtain ⟨htsdValue, hpthread, hend⟩ := carve hneed
  unfold allocate
  rw [if_neg (not_not_intro htsd), hmap]
  dsimp only
  rw [if_neg hne]
  by_cases hstack : v.stack = 0
  · rw [if_pos hstack]
    exact ⟨_, rfl, rfl, rfl, rfl, htsdValue, hpthread, fun _ => ⟨hend, rfl⟩,
      fun hset => absurd hstack hset⟩
  · rw [if_neg hstack]
    exact ⟨_, rfl, rfl, rfl, rfl, htsdValue, hpthread, fun hunset => absurd hunset hstack,
      fun _ => ⟨rfl, rfl⟩⟩

theorem allocate_some {w : Locals} (htsd : v.tsd = 0) (hw : allocate a.malloc t v = some w) :
    a.malloc v.request ≠ 0 := by
  intro hnone
  unfold allocate at hw
  rw [if_neg (not_not_intro htsd), hnone] at hw
  cases hw

theorem request_congr {w : Locals} (hguard : w.guard = v.guard) (hsize : w.size = v.size) :
    w.request = v.request := by
  unfold Locals.request
  rw [hguard, hsize]

/-- Only the arguments are put into the stack of the application. -/
theorem layoutOk_appStack (h : Valid a t attr) (hstack : attr.stackaddr ≠ 0)
    (hholds : ¬ HoldsData t attr) (hl : pthreadCreate a.malloc t attr = some l) :
    LayoutOk t attr l := by
  have hfits := h.fits
  rw [if_pos hstack] at hfits
  have hexact := h.exactNeed_lt
  have hround : (ROUND t.need).toNat = roundUp t.exactNeed := by
    rw [← toNat_need hexact] at hfits ⊢
    exact toNat_ROUND hfits
  have hroundUp := roundUp_spec t.exactNeed
  have hmin := h.stacksize_le
  have hsize := h.stackFits hstack
  have htopStack := toNat_and_neg16 attr.stackaddr
  have hlimit : (attr.stackaddr - attr.stacksize).toNat =
      attr.stackaddr.toNat - attr.stacksize.toNat := BitVec.toNat_sub_of_le hsize
  have hv := fromAttr_appStack hstack hholds
  have htsd : (fromAttr t attr).tsd = 0 := by rw [hv]
  have hrequest : (fromAttr t attr).request = ROUND t.need := by
    rw [hv]
    rfl
  have hset : (fromAttr t attr).stack ≠ 0 := by
    rw [hv]
    intro hzero
    have hnone : (attr.stackaddr &&& -16).toNat = 0 := congrArg BitVec.toNat hzero
    omega
  obtain ⟨w, hw, rfl⟩ := Option.map_eq_some_iff.mp hl
  have hne := allocate_some htsd hw
  rw [hrequest] at hne
  have hinside := a.inside _ hne
  have haligned := a.aligned (ROUND t.need)
  have htop : (a.malloc (ROUND t.need) + (fromAttr t attr).guard + (fromAttr t attr).size).toNat =
      (a.malloc (ROUND t.need)).toNat + roundUp t.exactNeed := by
    rw [hv]
    dsimp only
    have hnone : (0 : Size).toNat = 0 := rfl
    rw [BitVec.toNat_add, BitVec.toNat_add, hround, hnone]
    omega
  obtain ⟨w', hw', hmap, hwsize, hguard, hwtsd, hpthread, -, hkept⟩ :=
    allocate_of_unset (t := t) htsd (congrArg a.malloc hrequest) hne htop (by omega)
  obtain rfl : w' = w := Option.some.inj (hw'.symm.trans hw)
  obtain ⟨hwstack, hwlimit⟩ := hkept hset
  rw [hv] at hwstack hwlimit
  dsimp only at hwstack hwlimit
  have hcarved : Carved t w' ((a.malloc (ROUND t.need)).toNat + roundUp t.exactNeed) := by
    refine ⟨by omega, by omega, by omega, hwtsd, hpthread, ?_⟩
    rw [hwstack, hwlimit]
    omega
  have hblock : (place t w').block = ⟨(a.malloc (ROUND t.need)).toNat, roundUp t.exactNeed⟩ := by
    have hsame : (place t w').request = ROUND t.need :=
      (request_congr hguard hwsize).trans hrequest
    unfold Layout.block
    rw [hsame, hround]
    exact congrArg (Interval.mk · _) (congrArg BitVec.toNat hmap)
  have hapart := h.apart hstack _ hne
  rw [hround] at hapart
  have hargs := place_args hcarved
  obtain ⟨hstackEnd, hstackSize⟩ := place_stack hcarved
  rw [hwstack] at hargs
  rw [hwlimit] at hstackSize
  have hargsSize : startArgsSize.toNat = 64 := rfl
  have hdata : (dataRoom t ((a.malloc (ROUND t.need)).toNat + roundUp t.exactNeed)).Within
      ⟨(a.malloc (ROUND t.need)).toNat, roundUp t.exactNeed⟩ := by
    unfold Interval.Within Interval.stop dataRoom
    dsimp only
    omega
  have hargsApp : (place t w').argsRegion.Within attr.appStack := by
    unfold Interval.Within Interval.stop Layout.argsRegion Attr.appStack
    dsimp only
    omega
  have hstackApp : (place t w').stackBelow.Within attr.appStack := by
    unfold Interval.Within Interval.stop Layout.stackBelow Attr.appStack
    dsimp only
    omega
  refine (layoutOk_iff hcarved ?_ (Or.inl ⟨?_, ?_⟩) (Or.inr ⟨hstack, hargsApp⟩)
    (hargsApp.apart hdata hapart) (hstackApp.apart hdata hapart)).mpr (by omega)
  · rw [hwlimit, hlimit]
    exact if_pos hstack
  · show w'.map ≠ 0
    rw [hmap]
    exact hne
  · rw [hblock]
    exact hdata

/-- The sizes, if all of the memory is allocated; `malloc` is asked for the
guard three times. -/
theorem sizes_allocated (h : Valid a t attr) (hstack : attr.stackaddr = 0) :
    (fromAttr t attr).guard.toNat = roundUp attr.guardsize.toNat ∧
      (fromAttr t attr).size.toNat = roundUp attr.guardsize.toNat +
        roundUp (attr.stacksize.toNat + t.exactNeed) ∧
      (fromAttr t attr).request.toNat = 3 * roundUp attr.guardsize.toNat +
        roundUp (attr.stacksize.toNat + t.exactNeed) := by
  have hfits := h.fits
  rw [if_neg (not_not_intro hstack)] at hfits
  have hrestUp := roundUp_spec (attr.stacksize.toNat + t.exactNeed)
  have hexact := h.exactNeed_lt
  have hguard : (ROUND attr.guardsize).toNat = roundUp attr.guardsize.toNat :=
    toNat_ROUND (by omega)
  have hsum : (attr.stacksize + t.tlsRoom + t.pthreadRoom + t.tsdSize).toNat =
      attr.stacksize.toNat + t.exactNeed := by
    have htls := toNat_tlsRoom hexact
    have hpthread := toNat_pthreadRoom hexact
    have hlt : attr.stacksize.toNat + t.exactNeed < 2 ^ 32 := by omega
    unfold Target.exactNeed at hlt ⊢
    rw [BitVec.toNat_add, BitVec.toNat_add, BitVec.toNat_add, htls, hpthread]
    omega
  have hrest : (ROUND (attr.stacksize + t.tlsRoom + t.pthreadRoom + t.tsdSize)).toNat =
      roundUp (attr.stacksize.toNat + t.exactNeed) := by
    rw [toNat_ROUND, hsum]
    rw [hsum]
    omega
  rw [fromAttr_allocated hstack]
  unfold Locals.request
  dsimp only
  refine ⟨hguard, ?_, ?_⟩
  · rw [BitVec.toNat_add, hguard, hrest]
    omega
  · by_cases hzero : ROUND attr.guardsize = 0
    · rw [if_neg (not_not_intro hzero), BitVec.toNat_add, hguard, hrest]
      have hnone : (ROUND attr.guardsize).toNat = 0 := congrArg BitVec.toNat hzero
      omega
    · rw [if_pos hzero, BitVec.toNat_add, BitVec.toNat_add, BitVec.toNat_add, hguard, hrest]
      omega

/-- All of the memory is allocated. -/
theorem layoutOk_allocated (h : Valid a t attr) (hstack : attr.stackaddr = 0)
    (hl : pthreadCreate a.malloc t attr = some l) :
    LayoutOk t attr l ↔ t.need.toNat % 16 = 0 ∨ 13 ≤ t.need.toNat % 16 := by
  have hguardUp := roundUp_spec attr.guardsize.toNat
  have hrestUp := roundUp_spec (attr.stacksize.toNat + t.exactNeed)
  have hmin := h.stacksize_le
  obtain ⟨hguardSize, hsizeValue, hrequest⟩ := sizes_allocated h hstack
  have hv := fromAttr_allocated (t := t) hstack
  have htsd : (fromAttr t attr).tsd = 0 := by rw [hv]
  have hunset : (fromAttr t attr).stack = 0 := by rw [hv]
  obtain ⟨w, hw, rfl⟩ := Option.map_eq_some_iff.mp hl
  have hne := allocate_some htsd hw
  have hinside := a.inside _ hne
  have haligned := a.aligned (fromAttr t attr).request
  generalize hmapDef : a.malloc (fromAttr t attr).request = map at hne hinside haligned
  have htop : (map + (fromAttr t attr).guard + (fromAttr t attr).size).toNat = map.toNat +
      2 * roundUp attr.guardsize.toNat + roundUp (attr.stacksize.toNat + t.exactNeed) := by
    rw [BitVec.toNat_add, BitVec.toNat_add, hguardSize, hsizeValue]
    omega
  obtain ⟨w', hw', hmap, hwsize, hguard, hwtsd, hpthread, hfresh, -⟩ :=
    allocate_of_unset (t := t) htsd hmapDef hne htop (by omega)
  obtain rfl : w' = w := Option.some.inj (hw'.symm.trans hw)
  obtain ⟨hwstack, hwlimit⟩ := hfresh hunset
  have hlimit : w'.stackLimit.toNat = map.toNat + roundUp attr.guardsize.toNat := by
    rw [hwlimit, BitVec.toNat_add, hguardSize]
    omega
  have hcarved : Carved t w' (map.toNat + 2 * roundUp attr.guardsize.toNat +
      roundUp (attr.stacksize.toNat + t.exactNeed)) := by
    refine ⟨by omega, by omega, by omega, hwtsd, hpthread, ?_⟩
    rw [hwstack, hlimit]
    omega
  have hhome : Housed attr (place t w') (place t w').block := by
    refine Or.inl ⟨?_, Interval.Within.refl _⟩
    show w'.map ≠ 0
    rw [hmap]
    exact hne
  have hblockStart : (place t w').block.start = map.toNat := congrArg BitVec.toNat hmap
  have hblockLen : (place t w').block.len = 3 * roundUp attr.guardsize.toNat +
      roundUp (attr.stacksize.toNat + t.exactNeed) := by
    rw [← hrequest]
    exact congrArg BitVec.toNat (request_congr hguard hwsize)
  refine layoutOk_below hcarved hwstack ?_ hhome ?_ ?_
  · have hplaced : lowerLimit attr (place t w') = w'.map.toNat + w'.guard.toNat :=
      if_neg (not_not_intro hstack)
    rw [hplaced, hlimit, hmap, hguard, hguardSize]
  · omega
  · unfold Interval.stop
    omega

end Ways

/-- The layout is right except that the lower end of the stack may lie below
its memory, by the bytes that its upper end was moved down to be aligned. -/
theorem pthreadCreate_layout_iff {a : Allocator} {t : Target} {attr : Attr} {l : Layout}
    (h : Valid a t attr) (hl : pthreadCreate a.malloc t attr = some l) :
    LayoutOk t attr l ↔
      (attr.stackaddr ≠ 0 ∧ ¬ HoldsData t attr) ∨ t.need.toNat % 16 = 0 ∨
        13 ≤ t.need.toNat % 16 := by
  by_cases hstack : attr.stackaddr = 0
  · rw [layoutOk_allocated h hstack hl]
    simp only [hstack, ne_eq, not_true_eq_false, false_and, false_or]
  · by_cases hholds : HoldsData t attr
    · rw [layoutOk_ownStack h hstack hholds hl]
      simp only [hholds, not_true_eq_false, and_false, false_or]
    · exact iff_of_true (layoutOk_appStack h hstack hholds hl) (Or.inl ⟨hstack, hholds⟩)

namespace LayoutWitness

/-- All memory is at one address. -/
def bump : Allocator where
  malloc := fun n => if n.toNat < 0xffff0000 then 0x10000 else 0
  aligned := by
    intro n
    split
    · rfl
    · rfl
  inside := by
    intro n hne
    by_cases hn : n.toNat < 0xffff0000
    · rw [if_pos hn]
      have hbase : (0x10000 : Size).toNat = 0x10000 := rfl
      omega
    · exact absurd (if_neg hn) hne

/-- A program with `tlsSize` bytes of thread-local words. -/
def program (tlsSize : Size) : Target where
  tlsSize := tlsSize
  tlsAlign := 4
  structPthread := 124
  tsdSize := 512
  tlsAlignLog := 2
  tlsAlign_eq := rfl
  structPthread_aligned := rfl
  tsdSize_eq := Or.inr rfl

def defaultAttr : Attr := ⟨131072, 8192, 0⟩

theorem valid_defaultAttr {tlsSize : Size} (hsize : tlsSize = 12 ∨ tlsSize = 8) :
    Valid bump (program tlsSize) defaultAttr where
  accepted := by
    unfold Attr.Accepted
    decide
  fits := by
    rcases hsize with rfl | rfl
    · decide
    · decide
  stackFits := fun hne => absurd rfl hne
  apart := fun hne => absurd rfl hne

/-- With the alignment these are 16 bytes of thread-local storage. -/
theorem twelve_bytes_ok :
    ∃ l, pthreadCreate bump.malloc (program 12) defaultAttr = some l ∧
      LayoutOk (program 12) defaultAttr l :=
  ⟨_, rfl, (pthreadCreate_layout_iff (valid_defaultAttr (Or.inl rfl)) rfl).mpr
    (Or.inr (Or.inl (by decide)))⟩

/-- The stack is said to begin in the guard. -/
theorem eight_bytes_below_limit :
    ¬ ∀ (a : Allocator) (t : Target) (attr : Attr) (l : Layout), Valid a t attr →
        pthreadCreate a.malloc t attr = some l → LayoutOk t attr l := by
  intro h
  have hok := h bump (program 8) defaultAttr _ (valid_defaultAttr (Or.inr rfl)) rfl
  exact absurd hok.stackAbove (by decide)

end LayoutWitness

end ThreadLayout

end WasixLibc
