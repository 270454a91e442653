/-
A stream that is made in blocks and handed out from a reserve.

An entry that was handed out is cleared, and a key is replaced with each block.
Entries that are drawn one by one depend on nothing but how many there are; a
part of the reserve, and a whole block past an empty one, are drawn at once.
-/
import Mathlib.Data.List.Basic

namespace WasixLibc

universe u v

/-- The entries of `reserve` before `off` have been handed out. -/
@[ext] structure Reserve (K : Type u) (B : Type v) (size : Nat) where
  off : Nat
  offLe : off ≤ size
  key : K
  reserve : Vector B size

namespace Reserve

variable {K : Type u} {B : Type v} {size : Nat}

section Take

variable (zero : B)

/-- The part of `block` from `off` on, `n` entries long, is overwritten. -/
def clear (block : Vector B size) (off n : Nat) : Vector B size :=
  Vector.ofFn (fun i => if off ≤ i ∧ i < off + n then zero else block[i])

/-- Hand out `n` entries of those that are left. -/
def take (s : Reserve K B size) (n : Nat) (h : s.off + n ≤ size) : List B × Reserve K B size :=
  ((s.reserve.toList.drop s.off).take n,
    { s with off := s.off + n, offLe := h, reserve := clear zero s.reserve s.off n })

/-- What was handed out is no longer there. -/
def Erased (s : Reserve K B size) : Prop :=
  ∀ i (hi : i < size), i < s.off → s.reserve[i] = zero

variable {zero} {s : Reserve K B size} {m n : Nat}

theorem getElem_clear (block : Vector B size) (off n i : Nat) (hi : i < size) :
    (clear zero block off n)[i] = if off ≤ i ∧ i < off + n then zero else block[i] := by
  unfold clear
  rw [Vector.getElem_ofFn]
  rfl

theorem clear_zero (block : Vector B size) (off : Nat) : clear zero block off 0 = block := by
  apply Vector.ext
  intro i hi
  rw [getElem_clear, if_neg (by omega)]

theorem clear_clear (block : Vector B size) (off m n : Nat) :
    clear zero (clear zero block off m) (off + m) n = clear zero block off (m + n) := by
  apply Vector.ext
  intro i hi
  rw [getElem_clear, getElem_clear, getElem_clear]
  split
  · rw [if_pos (by omega)]
  · split
    · rw [if_pos (by omega)]
    · rw [if_neg (by omega)]

/-- The entries behind a part that is cleared. -/
theorem drop_clear (block : Vector B size) (off m : Nat) :
    (clear zero block off m).toList.drop (off + m) = block.toList.drop (off + m) := by
  apply List.ext_getElem
  · rw [List.length_drop, List.length_drop, Vector.length_toList, Vector.length_toList]
  · intro i hi hi'
    rw [List.getElem_drop, List.getElem_drop, Vector.getElem_toList, Vector.getElem_toList,
      getElem_clear, if_neg (by omega)]

theorem take_zero (h : s.off + 0 ≤ size) : s.take zero 0 h = ([], s) := by
  unfold take
  simp only [List.take_zero, Nat.add_zero, clear_zero]

variable (zero) in
theorem take_add (h : s.off + (m + n) ≤ size) (hm : s.off + m ≤ size)
    (hn : (s.take zero m hm).2.off + n ≤ size) :
    s.take zero (m + n) h =
      ((s.take zero m hm).1 ++ ((s.take zero m hm).2.take zero n hn).1,
        ((s.take zero m hm).2.take zero n hn).2) := by
  unfold take
  simp only [drop_clear, clear_clear, Nat.add_assoc, List.take_add, List.drop_drop]

theorem length_take (h : s.off + n ≤ size) : (s.take zero n h).1.length = n := by
  unfold take
  rw [List.length_take, List.length_drop, Vector.length_toList]
  omega

theorem take_erased (herased : s.Erased zero) (h : s.off + n ≤ size) :
    (s.take zero n h).2.Erased zero := by
  intro i hi hlt
  have hlt' : i < s.off + n := hlt
  have hget : (s.take zero n h).2.reserve[i] =
      if s.off ≤ i ∧ i < s.off + n then zero else s.reserve[i] := getElem_clear _ _ _ _ hi
  rw [hget]
  split
  · rfl
  · exact herased i hi (by omega)

end Take

section Draw

variable [Fact (0 < size)] (next : K → Vector B size × K) (zero : B)

/-- A new block, nothing of which has been handed out. -/
def refill (s : Reserve K B size) : Reserve K B size where
  off := 0
  offLe := Nat.zero_le size
  key := (next s.key).2
  reserve := (next s.key).1

/-- A reserve that has an entry left. -/
def ready (s : Reserve K B size) : Reserve K B size := if s.off = size then s.refill next else s

theorem ready_off_lt (s : Reserve K B size) : (s.ready next).off < size := by
  unfold ready
  split
  · exact (Fact.out : 0 < size)
  · rename_i hne
    exact Nat.lt_of_le_of_ne s.offLe hne

/-- The next entry. -/
def draw (s : Reserve K B size) : List B × Reserve K B size :=
  (s.ready next).take zero 1 (ready_off_lt next s)

/-- The next entries, one after the other. -/
def draws : Nat → Reserve K B size → List B × Reserve K B size
  | 0, s => ([], s)
  | n + 1, s =>
      let first := s.draw next zero
      let rest := draws n first.2
      (first.1 ++ rest.1, rest.2)

variable {next zero} {s : Reserve K B size} {n : Nat}

omit [Fact (0 < size)] in
theorem ready_of_lt (hlt : s.off < size) : s.ready next = s := if_neg (Nat.ne_of_lt hlt)

omit [Fact (0 < size)] in
theorem ready_of_empty (hempty : s.off = size) : s.ready next = s.refill next := if_pos hempty

omit [Fact (0 < size)] in
theorem ready_erased (herased : s.Erased zero) : (s.ready next).Erased zero := by
  unfold ready
  split
  · intro i _ hlt
    exact absurd hlt (Nat.not_lt_zero i)
  · exact herased

theorem draws_erased (herased : s.Erased zero) : (s.draws next zero n).2.Erased zero := by
  induction n generalizing s with
  | zero => exact herased
  | succ n ih => exact ih (take_erased (ready_erased herased) _)

theorem length_draws : (s.draws next zero n).1.length = n := by
  induction n generalizing s with
  | zero => rfl
  | succ n ih =>
      have hone : (s.draw next zero).1.length = 1 := length_take _
      simp only [draws, List.length_append, ih, hone]
      omega

theorem draws_add (m n : Nat) (s : Reserve K B size) :
    s.draws next zero (m + n) =
      ((s.draws next zero m).1 ++ ((s.draws next zero m).2.draws next zero n).1,
        ((s.draws next zero m).2.draws next zero n).2) := by
  induction m generalizing s with
  | zero => rw [Nat.zero_add]; rfl
  | succ m ih =>
      rw [Nat.add_right_comm]
      simp only [draws, ih, List.append_assoc]

/-- Entries that are left are drawn by taking them. -/
theorem draws_eq_take (hlt : s.off < size) (h : s.off + n ≤ size) :
    s.draws next zero n = s.take zero n h := by
  induction n generalizing s with
  | zero => rw [take_zero]; rfl
  | succ n ih =>
      have hone : s.off + 1 ≤ size := hlt
      have hdraw : s.draw next zero = s.take zero 1 hone := by
        unfold draw
        simp only [ready_of_lt hlt]
      have hrest : (s.take zero 1 hone).2.draws next zero n =
          (s.take zero 1 hone).2.take zero n (by change s.off + 1 + n ≤ size; omega) := by
        by_cases hn : n = 0
        · subst hn
          rw [take_zero]
          rfl
        · exact ih (by change s.off + 1 < size; omega) _
      have hadd : s.off + (1 + n) ≤ size := by omega
      have htake := take_add zero hadd hone (by change s.off + 1 + n ≤ size; omega)
      simp only [draws, hdraw, hrest]
      rw [← htake]
      congr 1
      omega

/-- Entries that are left are drawn first. -/
theorem draws_of_left {m : Nat} (hlt : s.off < size) (hle : s.off + m ≤ size) (hmn : m ≤ n) :
    s.draws next zero n =
      ((s.take zero m hle).1 ++ ((s.take zero m hle).2.draws next zero (n - m)).1,
        ((s.take zero m hle).2.draws next zero (n - m)).2) := by
  have hsplit : n = m + (n - m) := by omega
  rw [hsplit, draws_add, draws_eq_take hlt hle, Nat.add_sub_cancel_left]

/-- Past its end, the reserve is filled before an entry is drawn. -/
theorem draws_of_empty (hempty : s.off = size) (hn : 0 < n) :
    s.draws next zero n = (s.refill next).draws next zero n := by
  obtain ⟨n, rfl⟩ := Nat.exists_eq_succ_of_ne_zero (Nat.ne_of_gt hn)
  have hready : (s.refill next).ready next = s.refill next := ready_of_lt (Fact.out : 0 < size)
  simp only [draws, draw, ready_of_empty hempty, hready]

/-- A whole block is drawn past an empty reserve as it is made. -/
theorem draws_block (hempty : s.off = size) (herased : s.Erased zero) :
    s.draws next zero size =
      ((next s.key).1.toList, { s with key := (next s.key).2 }) := by
  have hall : (s.refill next).off + size ≤ size := by
    change 0 + size ≤ size
    omega
  have hlist : ((s.refill next).reserve.toList.drop 0).take size = (next s.key).1.toList := by
    rw [List.drop_zero, List.take_of_length_le]
    · rfl
    · exact Nat.le_of_eq Vector.length_toList
  have hcleared : clear zero (s.refill next).reserve 0 size = s.reserve := by
    apply Vector.ext
    intro i hi
    rw [getElem_clear, if_pos (by omega), herased i hi (by omega)]
  have hpos : 0 < size := Fact.out
  rw [draws_of_empty hempty hpos, draws_eq_take hpos hall]
  refine Prod.ext hlist (Reserve.ext ?_ rfl hcleared)
  change 0 + size = s.off
  omega

end Draw

end Reserve

end WasixLibc
