/-
What a program holds of the heap, over whole runs.

The program gives back and resizes only pointers that it holds.  Then every
pointer it holds has a region of its own with room for what its call allocates, and
no region is in use that it does not hold.
-/
import WasixLibc.EmmallocOwnership

namespace WasixLibc

namespace Emmalloc

open Mman (wrap)

/-- An allocation that was handed out and not given back. -/
structure Allocation where
  ptr : Nat
  size : Nat
  alignment : Nat
deriving Repr, DecidableEq

/-- The bytes that a call allocates.  `emmalloc_calloc` does not check its product, so that more
may have been asked for. -/
def Call.bytes : Call → Nat
  | .malloc size | .alignedAlloc _ size | .posixMemalign _ size | .realloc _ size => size
  | .calloc num size => wrap (num * size)
  | .free _ | .others _ => 0

def Call.alignment : Call → Nat
  | .alignedAlloc alignment _ | .posixMemalign alignment _ => validateAllocAlignment alignment
  | _ => MALLOC_ALIGNMENT

/-- The pointer that a call is given, unless it is `NULL`. -/
def Call.given : Call → Option Nat
  | .free ptr | .realloc ptr _ => if ptr = 0 then none else some ptr
  | _ => none

/-- What a call that returns `ret` does not leave to the program. -/
def Call.back (ret : Option Nat) (call : Call) : Option Nat :=
  match call with
  | .realloc _ size => if size = 0 ∨ ret.isSome then call.given else none
  | _ => call.given

structure Program where
  heap : Heap
  live : List Allocation

def settle (call : Call) (ret : Option Nat) (live : List Allocation) : List Allocation :=
  ret.toList.map (fun ptr => ⟨ptr, call.bytes, call.alignment⟩) ++
    live.filter fun a => some a.ptr ≠ call.back ret

/-- The program is given what it holds. -/
def Call.Valid (live : List Allocation) (call : Call) : Prop :=
  ∀ ptr ∈ call.given, ptr ∈ live.map Allocation.ptr

/-- A call that returns, whatever the host does. -/
inductive ProgramStep : Program → Call × Option Nat → Program → Prop
  | returns {p : Program} {call : Call} {ret : Option Nat} {h' : Heap}
      {host : Nat → Growth × Growth} {depth : Nat} (hvalid : call.Valid p.live)
      (hcall : exec host depth call p.heap = some (.ok (ret, h'))) :
      ProgramStep p (call, ret) ⟨h', settle call ret p.live⟩

/-- The region of an allocation. -/
structure Backs (r : Region) (a : Allocation) : Prop where
  used : r.kind = .used
  start : r.payloadStart = a.ptr
  room : a.ptr + a.size ≤ r.payloadEnd

/-- The regions in use are those of `live`. -/
structure Owned (live : List Allocation) (regions : List Region) : Prop where
  starts : (usedStarts regions).Perm (live.map Allocation.ptr)
  backed : ∀ a ∈ live, ∃ r ∈ regions, Backs r a
  aligned : ∀ a ∈ live, a.ptr % a.alignment = 0 ∧ a.ptr % MALLOC_ALIGNMENT = 0

/-- What a call did that returned `ret`. -/
structure Served (call : Call) (ret : Option Nat) (old new : List Region) : Prop where
  exchange : Exchange (call.back ret) ret old new
  backed : ∀ ptr ∈ ret, ∃ r ∈ new, r.kind = .used ∧ r.payloadStart = ptr ∧
    ptr + call.bytes ≤ r.payloadEnd
  aligned : ∀ ptr ∈ ret, ptr % call.alignment = 0 ∧ ptr % MALLOC_ALIGNMENT = 0

variable {h h' : Heap} {live : List Allocation} {old new : List Region} {call : Call}
variable {ret : Option Nat} {host : Nat → Growth × Growth} {depth ptr size alignment : Nat}
variable {r : Region}

/-! One call -/

theorem Owned.given (howned : Owned live old) (hvalid : call.Valid live)
    (hgiven : ptr ∈ call.given) : ∃ r ∈ old, r.kind = .used ∧ r.payloadStart = ptr := by
  have hmem : ptr ∈ usedStarts old := howned.starts.mem_iff.mpr (hvalid ptr hgiven)
  exact mem_usedStarts.mp hmem

theorem MALLOC_ALIGNMENT_dvd (hpower : isPowerOf2 alignment = true) :
    MALLOC_ALIGNMENT ∣ validateAllocAlignment alignment := by
  unfold validateAllocAlignment
  by_cases hlarge : MALLOC_ALIGNMENT ≤ alignment
  · rw [Nat.max_eq_left hlarge]
    have hne : alignment ≠ 0 := Nat.ne_of_gt (Nat.lt_of_lt_of_le (by decide) hlarge)
    obtain ⟨k, rfl⟩ := (Nat.and_sub_one_eq_zero_iff_isPowerOfTwo hne).mp (by
      simpa [isPowerOf2] using hpower)
    have hk : 2 ^ 4 ≤ 2 ^ k := hlarge
    exact Nat.pow_dvd_pow 2 ((Nat.pow_le_pow_iff_right (by decide)).mp hk)
  · rw [Nat.max_eq_right (Nat.le_of_not_le hlarge)]

/-- Nothing is allocated at an alignment that is no power of two. -/
theorem isPowerOf2_of_allocated
    (hcall : emmallocMemalign host depth alignment size h = some (.ok (some ptr, h'))) :
    isPowerOf2 alignment = true := by
  by_contra hpower
  unfold emmallocMemalign allocateMemory at hcall
  cases depth with
  | zero => cases hcall
  | succ depth =>
      have hround : allocateRound host ⟨alignment, size, h, []⟩ = .done (.ok ⟨none, h, []⟩) :=
        allocateRound_invalid fun hvalid => hpower hvalid.1
      rw [Round.loop, hround] at hcall
      cases hcall

theorem served_of_memalign (hs : Sound h) (hback : call.back ret = none)
    (halignment : validateAllocAlignment alignment = call.alignment)
    (hcall : emmallocMemalign host depth alignment call.bytes h = some (.ok (ret, h'))) :
    Served call ret h.regions h'.regions := by
  have hlent := emmallocMemalign_lent hs hcall
  cases ret with
  | none => exact ⟨by rwa [hback], nofun, nofun⟩
  | some ptr =>
      obtain ⟨hexchange, haligned, hbacked⟩ := hlent
      refine ⟨by rwa [hback], ?_, ?_⟩
      · rintro _ ⟨⟩
        exact hbacked
      · rintro _ ⟨⟩
        refine ⟨halignment ▸ haligned, ?_⟩
        have hdvd := MALLOC_ALIGNMENT_dvd (isPowerOf2_of_allocated hcall)
        exact Nat.mod_eq_zero_of_dvd (Nat.dvd_trans hdvd (Nat.dvd_of_mod_eq_zero haligned))

/-- A call that does nothing. -/
theorem served_nothing (hback : call.back none = none) : Served call none old old :=
  ⟨by rw [hback]; exact .refl old, nofun, nofun⟩

theorem served_of_realloc {old : Nat} (hs : Sound h) (howned : Owned live h.regions)
    (hvalid : (Call.realloc old size).Valid live)
    (hcall : emmallocAlignedRealloc host depth old MALLOC_ALIGNMENT size h = some (.ok (ret, h'))) :
    Served (.realloc old size) ret h.regions h'.regions := by
  unfold emmallocAlignedRealloc at hcall
  split at hcall
  · rename_i hnull
    exact served_of_memalign hs (by simp [Call.back, Call.given, hnull]) rfl hcall
  · rename_i hnull
    have hgiven : old ∈ (Call.realloc old size).given := by simp [Call.given, hnull]
    obtain ⟨r, hr, hused, rfl⟩ := howned.given hvalid hgiven
    have hback : ∀ {ret : Option Nat}, size = 0 ∨ ret.isSome = true →
        (Call.realloc r.payloadStart size).back ret = some r.payloadStart := by
      intro ret hret
      simp [Call.back, Call.given, hnull, hret]
    split at hcall
    · rename_i hzero
      obtain ⟨h₁, hfree, hexchange⟩ := emmallocFree_exchange hs hr hused
      rw [hfree] at hcall
      cases hcall
      exact ⟨hback (Or.inl hzero) ▸ hexchange, nofun, nofun⟩
    · rename_i hzero
      split at hcall
      · cases hcall
        exact served_nothing (by simp [Call.back, hzero])
      · rename_i hmax
        have hrange : size ≤ 4294967292 := Nat.le_trans (Nat.not_lt.mp hmax) (by decide)
        have hle := (validateAllocSize_spec hrange).1
        have haddr : r.payloadStart - POINTER_SIZE = r.addr := Nat.add_sub_cancel _ _
        rw [haddr] at hcall
        dsimp only at hcall
        rcases @attemptRegionResize_resized h r (validateAllocSize size) hs hr hused with
          ⟨hresize, _⟩ | hresize | ⟨h₁, hresize, hresized⟩
        · rw [hresize] at hcall
          cases hcall
        · rw [hresize] at hcall
          dsimp only at hcall
          split at hcall
          · cases hcall
          · cases hcall
          · rename_i hmemalign
            cases hcall
            have hexchange : Exchange none none h.regions h'.regions :=
              emmallocMemalign_lent hs hmemalign
            exact ⟨by simpa [Call.back, hzero] using hexchange, nofun, nofun⟩
          · rename_i newptr h₁ hmemalign
            have hs₁ := emmallocMemalign_sound hs hmemalign
            obtain ⟨hexchange, haligned, s, hmem, hused₁, hstart, hend⟩ :
                Handed MALLOC_ALIGNMENT (validateAllocSize size) newptr h.regions h₁.regions :=
              emmallocMemalign_lent hs hmemalign
            -- the old region is still in use, and it is another one
            obtain ⟨t, ht, hused₂, haddr₂, _⟩ := hexchange.keeps r hr hused nofun
            have hold : t.payloadStart = r.payloadStart := by
              unfold Region.payloadStart
              rw [haddr₂]
            have hne : newptr ≠ r.payloadStart := by
              have hnodup := hexchange.starts.nodup_iff.mp hs₁.usedStarts_nodup
              rintro rfl
              exact (List.nodup_cons.mp hnodup).1 (mem_usedStarts.mpr ⟨r, hr, hused, rfl⟩)
            obtain ⟨h₂, hfree, hexchange'⟩ := emmallocFree_exchange hs₁ ht hused₂
            rw [hold] at hfree hexchange'
            rw [hfree] at hcall
            cases hcall
            obtain ⟨u, hu, hused₃, haddr₃, hsize₃⟩ :=
              hexchange'.keeps s hmem hused₁ (by simpa [hstart] using Ne.symm hne)
            refine ⟨?_, ?_, ?_⟩
            · rw [hback (Or.inr rfl)]
              exact hexchange.trade hexchange'
            · rintro _ ⟨⟩
              refine ⟨u, hu, hused₃, ?_, ?_⟩
              · unfold Region.payloadStart at hstart ⊢
                rw [haddr₃, hstart]
              · simp only [Call.bytes, Region.payloadEnd] at hend ⊢
                omega
            · rintro _ ⟨⟩
              exact ⟨haligned, haligned⟩
        · rw [hresize] at hcall
          cases hcall
          obtain ⟨hexchange, s, hmem, hused₁, hstart, hend⟩ := hresized
          refine ⟨?_, ?_, ?_⟩
          · rw [hback (Or.inr rfl)]
            exact hexchange
          · rintro _ ⟨⟩
            refine ⟨s, hmem, hused₁, hstart, ?_⟩
            simp only [Call.bytes]
            omega
          · rintro _ ⟨⟩
            obtain ⟨a, ha, hptr⟩ := List.mem_map.mp (hvalid _ hgiven)
            have haligned := (howned.aligned a ha).2
            rw [hptr] at haligned
            exact ⟨haligned, haligned⟩

theorem exec_served (hs : Sound h) (howned : Owned live h.regions) (hvalid : call.Valid live)
    (hcall : exec host depth call h = some (.ok (ret, h'))) :
    Served call ret h.regions h'.regions := by
  unfold exec at hcall
  cases call with
  | malloc size => exact served_of_memalign hs rfl rfl hcall
  | calloc num size => exact served_of_memalign hs rfl rfl hcall
  | alignedAlloc alignment size =>
      dsimp only at hcall
      split at hcall
      · cases hcall
        exact served_nothing rfl
      · split at hcall
        · cases hcall
        · split at hcall
          · cases hcall
            exact served_nothing rfl
          · exact served_of_memalign hs rfl rfl hcall
  | posixMemalign alignment size =>
      dsimp only at hcall
      split at hcall
      · cases hcall
        exact served_nothing rfl
      · exact served_of_memalign hs rfl rfl hcall
  | realloc oldptr size => exact served_of_realloc hs howned hvalid hcall
  | free oldptr =>
      dsimp only at hcall
      by_cases hnull : oldptr = 0
      · simp only [emmallocFree, hnull, if_true] at hcall
        cases hcall
        exact served_nothing (by simp [Call.back, Call.given, hnull])
      · have hgiven : oldptr ∈ (Call.free oldptr).given := by simp [Call.given, hnull]
        obtain ⟨r, hr, hused, rfl⟩ := howned.given hvalid hgiven
        obtain ⟨h₁, hfree, hexchange⟩ := emmallocFree_exchange hs hr hused
        rw [hfree] at hcall
        cases hcall
        exact ⟨by simpa [Call.back, Call.given, hnull] using hexchange, nofun, nofun⟩
  | others pages =>
      cases hcall
      exact served_nothing rfl

/-! The ledger -/

theorem Call.given_of_back (hback : ptr ∈ call.back ret) : ptr ∈ call.given := by
  cases call with
  | realloc oldptr size =>
      simp only [Call.back] at hback
      split at hback
      · exact hback
      · cases hback
  | _ => exact hback

/-- What is given back is one of the pointers, and the others stay. -/
theorem ptrs_perm (hnodup : (live.map Allocation.ptr).Nodup) {back : Option Nat}
    (hback : ∀ ptr ∈ back, ptr ∈ live.map Allocation.ptr) :
    (live.map Allocation.ptr).Perm
      (back.toList ++ (live.filter fun a => some a.ptr ≠ back).map Allocation.ptr) := by
  cases back with
  | none => simp
  | some ptr =>
      have hrest : (live.filter fun a => some a.ptr ≠ some ptr).map Allocation.ptr =
          (live.map Allocation.ptr).erase ptr := by
        rw [hnodup.erase_eq_filter, List.filter_map]
        congr 1
        refine List.filter_congr fun a _ => ?_
        by_cases heq : a.ptr = ptr <;> simp [heq]
      rw [hrest]
      exact List.perm_cons_erase (hback ptr rfl)

theorem Owned.settle (hs : Sound h) (howned : Owned live h.regions) (hvalid : call.Valid live)
    (hserved : Served call ret h.regions new) : Owned (settle call ret live) new where
  starts := by
    have hnodup : (live.map Allocation.ptr).Nodup :=
      howned.starts.nodup_iff.mp hs.usedStarts_nodup
    have hgiven : ∀ ptr ∈ call.back ret, ptr ∈ live.map Allocation.ptr :=
      fun ptr hback => hvalid ptr (Call.given_of_back hback)
    have hptrs := ptrs_perm hnodup hgiven
    have hall : ((call.back ret).toList ++ usedStarts new).Perm
        (ret.toList ++ live.map Allocation.ptr) :=
      hserved.exchange.starts.trans (howned.starts.append_left _)
    have hsettled : ((call.back ret).toList ++ usedStarts new).Perm ((call.back ret).toList ++
        (ret.toList ++ (live.filter fun a => some a.ptr ≠ call.back ret).map Allocation.ptr)) := by
      refine hall.trans ((hptrs.append_left _).trans ?_)
      rw [← List.append_assoc, ← List.append_assoc]
      exact List.perm_append_comm.append_right _
    have hmap : (ret.toList.map fun ptr => Allocation.mk ptr call.bytes call.alignment).map
        Allocation.ptr = ret.toList := by
      rw [List.map_map]
      exact List.map_id _
    rw [Emmalloc.settle, List.map_append, hmap]
    exact (List.perm_append_left_iff _).mp hsettled
  backed a ha := by
    rcases List.mem_append.mp ha with hmem | hmem
    · obtain ⟨ptr, hptr, rfl⟩ := List.mem_map.mp hmem
      obtain ⟨r, hr, hused, hstart, hend⟩ := hserved.backed ptr (by simpa using hptr)
      exact ⟨r, hr, hused, hstart, hend⟩
    · obtain ⟨hlive, hback⟩ := List.mem_filter.mp hmem
      obtain ⟨r, hr, hused, hstart, hend⟩ := howned.backed a hlive
      have hkept : r.payloadStart ∉ call.back ret := by
        rw [hstart]
        exact fun heq => of_decide_eq_true hback heq.symm
      obtain ⟨s, hs, hused', haddr, hsize⟩ := hserved.exchange.keeps r hr hused hkept
      refine ⟨s, hs, hused', ?_, ?_⟩
      · unfold Region.payloadStart at hstart ⊢
        rw [haddr, hstart]
      · unfold Region.payloadEnd at hend ⊢
        omega
  aligned a ha := by
    rcases List.mem_append.mp ha with hmem | hmem
    · obtain ⟨ptr, hptr, rfl⟩ := List.mem_map.mp hmem
      exact hserved.aligned ptr (by simpa using hptr)
    · exact howned.aligned a (List.mem_of_mem_filter hmem)

variable {image : Image} {trace : List (Call × Option Nat)} {p : Program}

/-- The heap is sound, and what is in use is accounted for. -/
structure Accounted (p : Program) : Prop where
  sound : Sound p.heap
  owned : Owned p.live p.heap.regions

theorem Accounted.step {p' : Program} {label : Call × Option Nat} (h : Accounted p)
    (hstep : ProgramStep p label p') : Accounted p' := by
  obtain ⟨hvalid, hcall⟩ := hstep
  exact ⟨Step.sound ⟨hcall⟩ h.sound,
    h.owned.settle h.sound hvalid (exec_served h.sound h.owned hvalid hcall)⟩

/-- Of two regions one lies behind the other. -/
theorem Laid.apart {roots : List RootRegion} {regions : List Region} {s : Region}
    (h : Laid roots regions) (hr : r ∈ regions) (hs : s ∈ regions) (hne : r ≠ s) :
    r.stop ≤ s.addr ∨ s.stop ≤ r.addr := by
  obtain ⟨before, behind, rfl⟩ := List.append_of_mem hr
  obtain ⟨_, hbehind, hbefore⟩ := List.pairwise_append.mp h.ordered
  have hother : s ∈ before ∨ s ∈ behind := by simpa [Ne.symm hne] using hs
  rcases hother with hmem | hmem
  · exact Or.inr (hbefore s hmem r List.mem_cons_self)
  · exact Or.inl ((List.pairwise_cons.mp hbehind).1 s hmem)

/-- The payload that is asked for would end behind the address space. -/
def Call.Overflows (call : Call) : Fault → Prop
  | .wrapped ptr =>
      4294967296 ≤ ptr + call.alignment + validateAllocSize call.bytes + REGION_HEADER_SIZE
  | _ => False

/-- A call that returns, unless its request overflows. -/
def Settles (call : Call) (result : Option (Except Fault (Option Nat × Heap))) : Prop :=
  (∃ ret h', result = some (.ok (ret, h'))) ∨
    ∃ fault, result = some (.error fault) ∧ call.Overflows fault ∧ ∀ ptr, call ≠ .free ptr

instance (live : List Allocation) (call : Call) : Decidable (call.Valid live) :=
  inferInstanceAs (Decidable (∀ ptr ∈ call.given, ptr ∈ live.map Allocation.ptr))

/-- The calls with what they return, if all of them are valid and return. -/
def replayProgram (host : Nat → Growth × Growth) (depth : Nat) :
    List Call → Program → Option (List (Call × Option Nat) × Program)
  | [], p => some ([], p)
  | call :: calls, p =>
      if call.Valid p.live then
        match exec host depth call p.heap with
        | some (.ok (ret, h)) =>
            (replayProgram host depth calls ⟨h, settle call ret p.live⟩).map fun (trace, p) =>
              ((call, ret) :: trace, p)
        | _ => none
      else none

namespace LedgerWitness

open GrowthWitness (granting)

/-- The first allocation moves when it is resized. -/
def calls : List Call :=
  [.malloc 100, .alignedAlloc 64 128, .calloc 10 8, .realloc 0x1F020 5000, .free 0x1F0C0]

def after (calls : List Call) : Option (List (Call × Option Nat) × Program) :=
  replayProgram granting 2 calls ⟨GrowthWitness.image.start, []⟩

end LedgerWitness

end Emmalloc

end WasixLibc
