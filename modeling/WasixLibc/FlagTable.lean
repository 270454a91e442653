/-
Sets of flags that are translated by a table with a column for each side.

Where the flags of each column are single bits of their own, a translation
there and back keeps the flags of the table and drops all others.
-/
import Mathlib.Data.List.Basic

namespace WasixLibc

namespace FlagTable

variable {w w' : Nat}

/-- Every flag of the first column that is set sets the one beside it. -/
def translate (table : List (BitVec w × BitVec w')) (mask : BitVec w) : BitVec w' :=
  table.foldl (fun flags pair => if mask &&& pair.1 ≠ 0 then flags ||| pair.2 else flags) 0

/-- The flags of the first column. -/
def flags (table : List (BitVec w × BitVec w')) : BitVec w :=
  table.foldl (fun flags pair => flags ||| pair.1) 0

/-- Flags are single bits, and no two entries of the table share one. -/
structure SingleBits (table : List (BitVec w × BitVec w')) : Prop where
  left : ∀ pair ∈ table, ∃ i < w, pair.1 = BitVec.twoPow w i
  right : ∀ pair ∈ table, pair.2 ≠ 0
  apart : ∀ pair ∈ table, ∀ pair' ∈ table, pair.2 &&& pair'.2 ≠ 0 → pair = pair'

/-- A check for single bits. -/
def check (table : List (BitVec w × BitVec w')) : Bool :=
  table.all (fun pair =>
    (List.range w).any (fun i => pair.1 == BitVec.twoPow w i) && pair.2 != 0 &&
      table.all (fun pair' => pair.2 &&& pair'.2 == 0 || pair == pair'))

theorem SingleBits.of_check {table : List (BitVec w × BitVec w')} (h : check table = true) :
    SingleBits table := by
  have hpairs : ∀ pair ∈ table, ((∃ i < w, pair.1 = BitVec.twoPow w i) ∧ pair.2 ≠ 0) ∧
      ∀ pair' ∈ table, pair.2 &&& pair'.2 = 0 ∨ pair = pair' := by
    simpa only [check, List.all_eq_true, Bool.and_eq_true, List.any_eq_true, List.mem_range,
      beq_iff_eq, bne_iff_ne, Bool.or_eq_true] using h
  refine ⟨fun pair hpair => (hpairs pair hpair).1.1, fun pair hpair => (hpairs pair hpair).1.2, ?_⟩
  intro pair hpair pair' hpair' hshared
  exact ((hpairs pair hpair).2 pair' hpair').resolve_left hshared

theorem getLsbD_zero (i : Nat) : ¬ (0 : BitVec w).getLsbD i = true := by
  simp

theorem and_ne_zero_iff {x y : BitVec w} :
    x &&& y ≠ 0 ↔ ∃ i, x.getLsbD i = true ∧ y.getLsbD i = true := by
  constructor
  · intro hne
    by_contra hnone
    apply hne
    apply BitVec.eq_of_getLsbD_eq
    intro i _
    rw [Bool.eq_iff_iff, iff_false_right (getLsbD_zero i), BitVec.getLsbD_and, Bool.and_eq_true]
    exact fun hboth => hnone ⟨i, hboth⟩
  · rintro ⟨i, hx, hy⟩ hzero
    have hbit := congrArg (fun z => z.getLsbD i) hzero
    simp [hx, hy] at hbit

theorem getLsbD_foldl_or {α : Type*} (table : List α) (set : α → Bool) (flag : α → BitVec w)
    (start : BitVec w) (i : Nat) :
    (table.foldl (fun flags a => if set a then flags ||| flag a else flags) start).getLsbD i =
      true ↔ start.getLsbD i = true ∨ ∃ a ∈ table, set a = true ∧ (flag a).getLsbD i = true := by
  induction table generalizing start with
  | nil => simp
  | cons a table ih =>
      rw [List.foldl_cons, ih, List.exists_mem_cons_iff, ← or_assoc]
      apply or_congr_left
      split
      · rename_i hset
        simp [hset]
      · rename_i hset
        simp [hset]

variable {table : List (BitVec w × BitVec w')}

theorem getLsbD_translate (mask : BitVec w) (i : Nat) :
    (translate table mask).getLsbD i = true ↔
      ∃ pair ∈ table, mask &&& pair.1 ≠ 0 ∧ pair.2.getLsbD i = true := by
  have hfold := getLsbD_foldl_or table (fun pair => decide (mask &&& pair.1 ≠ 0))
    (fun pair => pair.2) 0 i
  simp only [decide_eq_true_eq, getLsbD_zero, Bool.false_eq_true, false_or] at hfold
  exact hfold

theorem getLsbD_flags (i : Nat) :
    (flags table).getLsbD i = true ↔ ∃ pair ∈ table, pair.1.getLsbD i = true := by
  have hfold := getLsbD_foldl_or table (fun _ => true) (fun pair => pair.1) 0 i
  simp only [↓reduceIte, getLsbD_zero, Bool.false_eq_true, false_or, true_and] at hfold
  exact hfold

/-- A flag of the table is set in a translation if its neighbour was set. -/
theorem translate_and_ne_zero_iff (h : SingleBits table) (mask : BitVec w)
    {pair : BitVec w × BitVec w'} (hpair : pair ∈ table) :
    translate table mask &&& pair.2 ≠ 0 ↔ mask &&& pair.1 ≠ 0 := by
  rw [and_ne_zero_iff]
  constructor
  · rintro ⟨i, htranslate, hbit⟩
    obtain ⟨pair', hpair', hset, hbit'⟩ := (getLsbD_translate mask i).mp htranslate
    have heq : pair' = pair :=
      h.apart pair' hpair' pair hpair (and_ne_zero_iff.mpr ⟨i, hbit', hbit⟩)
    rw [← heq]
    exact hset
  · intro hset
    have hself : pair.2 &&& pair.2 ≠ 0 := by
      rw [BitVec.and_self]
      exact h.right pair hpair
    obtain ⟨i, hbit, -⟩ := and_ne_zero_iff.mp hself
    exact ⟨i, (getLsbD_translate mask i).mpr ⟨pair, hpair, hset, hbit⟩, hbit⟩

theorem and_twoPow_ne_zero_iff {mask : BitVec w} {i : Nat} (hi : i < w) :
    mask &&& BitVec.twoPow w i ≠ 0 ↔ mask.getLsbD i = true := by
  rw [and_ne_zero_iff]
  constructor
  · rintro ⟨k, hmask, hbit⟩
    rw [BitVec.getLsbD_twoPow, Bool.and_eq_true, decide_eq_true_eq, decide_eq_true_eq] at hbit
    rw [hbit.2]
    exact hmask
  · intro hmask
    refine ⟨i, hmask, ?_⟩
    rw [BitVec.getLsbD_twoPow, Bool.and_eq_true, decide_eq_true_eq, decide_eq_true_eq]
    exact ⟨hi, rfl⟩

/-- A translation there and back. -/
theorem translate_swap_translate (h : SingleBits table) (mask : BitVec w) :
    translate (table.map Prod.swap) (translate table mask) = mask &&& flags table := by
  apply BitVec.eq_of_getLsbD_eq
  intro i _
  rw [Bool.eq_iff_iff, getLsbD_translate, BitVec.getLsbD_and, Bool.and_eq_true, getLsbD_flags]
  constructor
  · rintro ⟨pair', hmem, hset, hbit⟩
    obtain ⟨pair, hpair, rfl⟩ := List.mem_map.mp hmem
    rw [Prod.fst_swap, translate_and_ne_zero_iff h mask hpair] at hset
    obtain ⟨j, hj, hsingle⟩ := h.left pair hpair
    rw [hsingle, and_twoPow_ne_zero_iff hj] at hset
    have hij := hbit
    rw [Prod.snd_swap, hsingle, BitVec.getLsbD_twoPow, Bool.and_eq_true, decide_eq_true_eq,
      decide_eq_true_eq] at hij
    exact ⟨hij.2 ▸ hset, pair, hpair, hbit⟩
  · rintro ⟨hmask, pair, hpair, hbit⟩
    refine ⟨pair.swap, List.mem_map.mpr ⟨pair, hpair, rfl⟩, ?_, hbit⟩
    rw [Prod.fst_swap, translate_and_ne_zero_iff h mask hpair]
    exact and_ne_zero_iff.mpr ⟨i, hmask, hbit⟩

end FlagTable

end WasixLibc
