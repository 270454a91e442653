/-
Bytes in memory, seen from the start of an object.

Words are stored with their lowest byte first.  A load sees the last store to
its bytes, or the bytes that were copied there, and nothing else.
-/
import Mathlib.Logic.Basic

namespace WasixLibc

abbrev ByteMemory := Nat → BitVec 8

namespace ByteMemory

/-- `memset` -/
def fill (m : ByteMemory) (o n : Nat) (b : BitVec 8) : ByteMemory :=
  fun i => if o ≤ i ∧ i < o + n then b else m i

/-- `memcpy` -/
def copy (m : ByteMemory) (o : Nat) (src : ByteMemory) (so n : Nat) : ByteMemory :=
  fun i => if o ≤ i ∧ i < o + n then src (so + (i - o)) else m i

def store8 (m : ByteMemory) (o : Nat) (x : BitVec 8) : ByteMemory :=
  fun i => if i = o then x else m i

def load16 (m : ByteMemory) (o : Nat) : BitVec 16 := m (o + 1) ++ m o

def store16 (m : ByteMemory) (o : Nat) (x : BitVec 16) : ByteMemory :=
  (m.store8 o (x.extractLsb' 0 8)).store8 (o + 1) (x.extractLsb' 8 8)

def load32 (m : ByteMemory) (o : Nat) : BitVec 32 := m.load16 (o + 2) ++ m.load16 o

def store32 (m : ByteMemory) (o : Nat) (x : BitVec 32) : ByteMemory :=
  (m.store16 o (x.extractLsb' 0 16)).store16 (o + 2) (x.extractLsb' 16 16)

def load64 (m : ByteMemory) (o : Nat) : BitVec 64 := m.load32 (o + 4) ++ m.load32 o

def store64 (m : ByteMemory) (o : Nat) (x : BitVec 64) : ByteMemory :=
  (m.store32 o (x.extractLsb' 0 32)).store32 (o + 4) (x.extractLsb' 32 32)

section Load

variable (m src : ByteMemory) (o p : Nat)

theorem store8_self (x : BitVec 8) : m.store8 o x o = x := if_pos rfl

theorem store8_of_ne {i : Nat} (x : BitVec 8) (h : i ≠ o) : m.store8 o x i = m i := if_neg h

theorem store16_of_outside {i : Nat} (x : BitVec 16) (h : i < o ∨ o + 2 ≤ i) :
    m.store16 o x i = m i := by
  unfold store16
  rw [store8_of_ne _ _ _ (by omega), store8_of_ne _ _ _ (by omega)]

theorem store32_of_outside {i : Nat} (x : BitVec 32) (h : i < o ∨ o + 4 ≤ i) :
    m.store32 o x i = m i := by
  unfold store32
  rw [store16_of_outside _ _ _ (by omega), store16_of_outside _ _ _ (by omega)]

theorem store64_of_outside {i : Nat} (x : BitVec 64) (h : i < o ∨ o + 8 ≤ i) :
    m.store64 o x i = m i := by
  unfold store64
  rw [store32_of_outside _ _ _ (by omega), store32_of_outside _ _ _ (by omega)]

theorem fill_of_inside {n i : Nat} (b : BitVec 8) (h : o ≤ i ∧ i < o + n) : m.fill o n b i = b :=
  if_pos h

theorem fill_of_outside {n i : Nat} (b : BitVec 8) (h : i < o ∨ o + n ≤ i) :
    m.fill o n b i = m i := if_neg (by omega)

theorem copy_of_inside {so n i : Nat} (h : o ≤ i ∧ i < o + n) :
    m.copy o src so n i = src (so + (i - o)) := if_pos h

theorem copy_of_outside {so n i : Nat} (h : i < o ∨ o + n ≤ i) : m.copy o src so n i = m i :=
  if_neg (by omega)

variable {m src o p} {m' : ByteMemory}

theorem load16_congr (h : ∀ i < 2, m (o + i) = m' (p + i)) : m.load16 o = m'.load16 p := by
  have hlow := h 0 (by decide)
  have hhigh := h 1 (by decide)
  rw [Nat.add_zero, Nat.add_zero] at hlow
  unfold load16
  rw [hlow, hhigh]

theorem load32_congr (h : ∀ i < 4, m (o + i) = m' (p + i)) : m.load32 o = m'.load32 p := by
  have hlow : m.load16 o = m'.load16 p := load16_congr (fun i hi => h i (by omega))
  have hhigh : m.load16 (o + 2) = m'.load16 (p + 2) := by
    refine load16_congr (fun i hi => ?_)
    rw [Nat.add_assoc, Nat.add_assoc]
    exact h (2 + i) (by omega)
  unfold load32
  rw [hlow, hhigh]

theorem load64_congr (h : ∀ i < 8, m (o + i) = m' (p + i)) : m.load64 o = m'.load64 p := by
  have hlow : m.load32 o = m'.load32 p := load32_congr (fun i hi => h i (by omega))
  have hhigh : m.load32 (o + 4) = m'.load32 (p + 4) := by
    refine load32_congr (fun i hi => ?_)
    rw [Nat.add_assoc, Nat.add_assoc]
    exact h (4 + i) (by omega)
  unfold load64
  rw [hlow, hhigh]

variable (m o)

theorem load16_store16 (x : BitVec 16) : (m.store16 o x).load16 o = x := by
  unfold load16 store16
  rw [store8_self, store8_of_ne _ _ _ (by omega), store8_self]
  exact BitVec.extractLsb'_append_extractLsb'

theorem load32_store32 (x : BitVec 32) : (m.store32 o x).load32 o = x := by
  have hlow : (m.store32 o x).load16 o = x.extractLsb' 0 16 := by
    rw [← load16_store16 m o (x.extractLsb' 0 16)]
    refine load16_congr (fun i hi => ?_)
    exact store16_of_outside _ _ _ (by omega)
  unfold load32
  rw [hlow]
  unfold store32
  rw [load16_store16]
  exact BitVec.extractLsb'_append_extractLsb'

theorem load64_store64 (x : BitVec 64) : (m.store64 o x).load64 o = x := by
  have hlow : (m.store64 o x).load32 o = x.extractLsb' 0 32 := by
    rw [← load32_store32 m o (x.extractLsb' 0 32)]
    refine load32_congr (fun i hi => ?_)
    exact store32_of_outside _ _ _ (by omega)
  unfold load64
  rw [hlow]
  unfold store64
  rw [load32_store32]
  exact BitVec.extractLsb'_append_extractLsb'

end Load

/-! Loads next to a store, and loads of what was copied -/

section Frame

variable {m src : ByteMemory} {o p so n : Nat}

theorem load16_store16_frame (x : BitVec 16) (h : p + 2 ≤ o ∨ o + 2 ≤ p) :
    (m.store16 o x).load16 p = m.load16 p :=
  load16_congr (fun _ _ => store16_of_outside _ _ _ (by omega))

theorem load16_store32_frame (x : BitVec 32) (h : p + 2 ≤ o ∨ o + 4 ≤ p) :
    (m.store32 o x).load16 p = m.load16 p :=
  load16_congr (fun _ _ => store32_of_outside _ _ _ (by omega))

theorem load16_copy_frame (h : p + 2 ≤ o ∨ o + n ≤ p) :
    (m.copy o src so n).load16 p = m.load16 p :=
  load16_congr (fun _ _ => copy_of_outside _ _ _ (by omega))

theorem load16_copy (h : o ≤ p) (hn : p + 2 ≤ o + n) :
    (m.copy o src so n).load16 p = src.load16 (so + (p - o)) := by
  refine load16_congr (fun i hi => ?_)
  rw [copy_of_inside _ _ _ (by omega)]
  congr 1
  omega

theorem load32_store16_frame (x : BitVec 16) (h : p + 4 ≤ o ∨ o + 2 ≤ p) :
    (m.store16 o x).load32 p = m.load32 p :=
  load32_congr (fun _ _ => store16_of_outside _ _ _ (by omega))

theorem load32_store32_frame (x : BitVec 32) (h : p + 4 ≤ o ∨ o + 4 ≤ p) :
    (m.store32 o x).load32 p = m.load32 p :=
  load32_congr (fun _ _ => store32_of_outside _ _ _ (by omega))

theorem load32_copy_frame (h : p + 4 ≤ o ∨ o + n ≤ p) :
    (m.copy o src so n).load32 p = m.load32 p :=
  load32_congr (fun _ _ => copy_of_outside _ _ _ (by omega))

theorem load32_copy (h : o ≤ p) (hn : p + 4 ≤ o + n) :
    (m.copy o src so n).load32 p = src.load32 (so + (p - o)) := by
  refine load32_congr (fun i hi => ?_)
  rw [copy_of_inside _ _ _ (by omega)]
  congr 1
  omega

theorem load64_store64_frame (x : BitVec 64) (h : p + 8 ≤ o ∨ o + 8 ≤ p) :
    (m.store64 o x).load64 p = m.load64 p :=
  load64_congr (fun _ _ => store64_of_outside _ _ _ (by omega))

theorem load64_copy (h : o ≤ p) (hn : p + 8 ≤ o + n) :
    (m.copy o src so n).load64 p = src.load64 (so + (p - o)) := by
  refine load64_congr (fun i hi => ?_)
  rw [copy_of_inside _ _ _ (by omega)]
  congr 1
  omega

end Frame

end ByteMemory

end WasixLibc
