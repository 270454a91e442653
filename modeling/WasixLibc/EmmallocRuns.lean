/-
Runs of the small allocator.

Every heap that calls lead to is sound, so that what the levels of one allocation
do holds in it.
-/
import WasixLibc.EmmallocLevels
import WasixLibc.LabelledRun

namespace WasixLibc

namespace Emmalloc

variable {h h' : Heap} {host : Nat → Growth × Growth} {depth : Nat} {call : Call}
variable {ptr : Option Nat}

/-! One call -/

theorem emmallocMemalign_sound {alignment size : Nat} (hs : Sound h)
    (hcall : emmallocMemalign host depth alignment size h = some (.ok (ptr, h'))) : Sound h' := by
  unfold emmallocMemalign at hcall
  split at hcall
  · cases hcall
  · cases hcall
  · rename_i out hout
    cases hcall
    exact allocateMemory_sound hs hout

theorem emmallocAlignedRealloc_sound {oldptr alignment size : Nat} (hs : Sound h)
    (hcall : emmallocAlignedRealloc host depth oldptr alignment size h = some (.ok (ptr, h'))) :
    Sound h' := by
  unfold emmallocAlignedRealloc at hcall
  split at hcall
  · exact emmallocMemalign_sound hs hcall
  · split at hcall
    · split at hcall
      · cases hcall
      · rename_i hfree
        cases hcall
        exact (emmallocFree_sound hs hfree).1
    · split at hcall
      · cases hcall
        exact hs
      · rename_i hmax
        have hrange : size ≤ 4294967292 := Nat.le_trans (Nat.not_lt.mp hmax) (by decide)
        have hsmall := (validateAllocSize_spec hrange).2.1
        have hsize : REGION_SIZE ≤ validateAllocSize size + REGION_HEADER_SIZE :=
          Nat.add_le_add_right hsmall REGION_HEADER_SIZE
        dsimp only at hcall
        split at hcall
        · cases hcall
        · rename_i hresize
          cases hcall
          exact (attemptRegionResize_sound hs hsize hresize).1
        · rename_i hresize
          have hs' := (attemptRegionResize_sound hs hsize hresize).1
          split at hcall
          · cases hcall
          · cases hcall
          · rename_i hmemalign
            cases hcall
            exact emmallocMemalign_sound hs' hmemalign
          · rename_i hmemalign
            have hs'' := emmallocMemalign_sound hs' hmemalign
            split at hcall
            · cases hcall
            · rename_i hfree
              cases hcall
              exact (emmallocFree_sound hs'' hfree).1

theorem Step.sound (hstep : Step h call h') (hs : Sound h) : Sound h' := by
  obtain ⟨hcall⟩ := hstep
  unfold exec at hcall
  cases call with
  | malloc size => exact emmallocMemalign_sound hs hcall
  | calloc num size => exact emmallocMemalign_sound hs hcall
  | alignedAlloc alignment size =>
      dsimp only at hcall
      split at hcall
      · cases hcall
        exact hs
      · split at hcall
        · cases hcall
        · split at hcall
          · cases hcall
            exact hs
          · exact emmallocMemalign_sound hs hcall
  | posixMemalign alignment size =>
      dsimp only at hcall
      split at hcall
      · cases hcall
        exact hs
      · exact emmallocMemalign_sound hs hcall
  | realloc oldptr size => exact emmallocAlignedRealloc_sound hs hcall
  | free oldptr =>
      dsimp only at hcall
      split at hcall
      · cases hcall
      · rename_i hfree
        cases hcall
        exact (emmallocFree_sound hs hfree).1
  | others pages =>
      cases hcall
      exact hs.grow (Nat.le_min.mpr ⟨hs.pages_le, Nat.le_add_right _ _⟩) (Nat.min_le_left _ _)

/-- The run lemma of the heap. -/
theorem run_sound {image : Image} {calls : List Call} (hrun : Run Step image.start calls h) :
    Sound h :=
  hrun.preserves (fun hs hstep => hstep.sound hs) image.start_sound

/-- The heap after the calls, if all of them return. -/
def replay (host : Nat → Growth × Growth) (depth : Nat) : List Call → Heap → Option Heap
  | [], h => some h
  | call :: calls, h =>
      match exec host depth call h with
      | some (.ok (_, h)) => replay host depth calls h
      | _ => none

theorem replay_run {calls : List Call} (hreplay : replay host depth calls h = some h') :
    Run Step h calls h' := by
  induction calls generalizing h with
  | nil =>
      obtain rfl := Option.some.inj hreplay
      exact .nil
  | cons call calls ih =>
      unfold replay at hreplay
      split at hreplay
      · rename_i hcall
        exact (Run.single ⟨hcall⟩).append (ih hreplay)
      · cases hreplay

namespace GrowthWitness

/-- The initial heap has 4096 bytes. -/
def image : Image where
  heapBase := 0x1F000
  pages := 2
  aligned := by decide
  base_pos := by decide
  base_le := by decide
  pages_le := by decide

def granting : Nat → Growth × Growth := fun _ => (⟨0, false⟩, ⟨0, false⟩)

def refusing : Nat → Growth × Growth := fun _ => (⟨0, true⟩, ⟨0, true⟩)

/-- Two free regions of one bucket, the first of which is the smaller one. -/
def calls : List Call :=
  [.malloc 1800, .malloc 184, .malloc 2040, .free 0x1F7F0, .free 0x1F020]

def aborts : Option (Except Fault Outcome) → Bool
  | some (.error .abort) => true
  | _ => false

end GrowthWitness

end Emmalloc

end WasixLibc
