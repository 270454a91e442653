/-
The two words of `qsort` and the orders of the trees.

As one number the words have a bit for each tree, counted from the order of the
last one.  `pntz` finds the next bit, unless the low word holds the last tree
alone: then it depends on what `__builtin_ctz` makes of the word 0.
-/
import WasixLibc.Qsort

namespace WasixLibc

namespace Qsort

open Leonardo

/-! Shifts -/

def value (p : Words) : Nat := p.1 + 0x100000000 * p.2

def Proper (p : Words) : Prop := p.1 < 0x100000000 ∧ p.2 < 0x100000000

theorem or_eq_add {n x b : Nat} (hb : b < 2 ^ n) : x * 2 ^ n ||| b = x * 2 ^ n + b := by
  rw [Nat.mul_comm]
  exact (Nat.two_pow_add_eq_or_of_lt hb x).symm

theorem split_pow {n : Nat} (hn : n ≤ 32) : 2 ^ (32 - n) * 2 ^ n = 0x100000000 := by
  rw [← Nat.pow_add, Nat.sub_add_cancel hn]

theorem shl_value {p : Words} (hp : Proper p) {n : Nat} (hn : 0 < n) (hpos : 0 < value p)
    (hfits : value p * 2 ^ n < 0x10000000000000000) :
    Proper (shl p n) ∧ value (shl p n) = value p * 2 ^ n := by
  obtain ⟨x, y⟩ := p
  obtain ⟨hx, hy⟩ := hp
  unfold value at hpos hfits ⊢
  unfold shl Proper
  dsimp only at hx hy hpos hfits ⊢
  split
  · rename_i hlarge
    have hsmall : n < 64 := by
      by_contra hge
      have hpow : 2 ^ 64 ≤ 2 ^ n := Nat.pow_le_pow_right (by decide) (by omega)
      have hle : 2 ^ n ≤ (x + 0x100000000 * y) * 2 ^ n := Nat.le_mul_of_pos_left _ hpos
      have hconst : 2 ^ 64 = 0x10000000000000000 := by decide
      omega
    obtain ⟨d, rfl⟩ : ∃ d, n = 32 + d := ⟨n - 32, by omega⟩
    have hmod : d % 32 = d := Nat.mod_eq_of_lt (by omega)
    have hpow : 2 ^ (32 + d) = 0x100000000 * 2 ^ d := by rw [Nat.pow_add]
    have hsum : (x + 0x100000000 * y) * (0x100000000 * 2 ^ d) =
        0x100000000 * (x * 2 ^ d) + 0x10000000000000000 * (y * 2 ^ d) := by ring
    have hone : 0 < 2 ^ d := Nat.two_pow_pos d
    rw [hpow, hsum] at hfits
    have hzero : y * 2 ^ d = 0 := by omega
    obtain rfl : y = 0 := (Nat.mul_eq_zero.mp hzero).resolve_right (by omega)
    simp only [shiftLeft, shiftRight, Nat.add_sub_cancel_left, hmod, Nat.zero_mul, Nat.zero_mod,
      Nat.zero_div, Nat.or_zero, hpow, hsum]
    omega
  · rename_i hsmall
    have hmod : n % 32 = n := Nat.mod_eq_of_lt (by omega)
    have hmod' : (32 - n) % 32 = 32 - n := Nat.mod_eq_of_lt (by omega)
    have hsplit := split_pow (n := n) (by omega)
    have hsum : (x + 0x100000000 * y) * 2 ^ n = x * 2 ^ n + 0x100000000 * (y * 2 ^ n) := by ring
    rw [hsum] at hfits ⊢
    have hlow : x / 2 ^ (32 - n) = x * 2 ^ n / 0x100000000 := by
      rw [← hsplit, Nat.mul_div_mul_right _ _ (Nat.two_pow_pos n)]
    have hbits : x / 2 ^ (32 - n) < 2 ^ n := by
      apply Nat.div_lt_of_lt_mul
      rw [hsplit]
      exact hx
    have hhigh : y * 2 ^ n % 0x100000000 = y * 2 ^ n := Nat.mod_eq_of_lt (by omega)
    have hor : y * 2 ^ n ||| x / 2 ^ (32 - n) = y * 2 ^ n + x * 2 ^ n / 0x100000000 := by
      rw [or_eq_add hbits, hlow]
    simp only [shiftLeft, shiftRight, hmod, hmod', hhigh, hor]
    omega

theorem shr_value {p : Words} (hp : Proper p) {n : Nat} (hn : 0 < n) (hsmall : n < 64) :
    Proper (shr p n) ∧ value (shr p n) = value p / 2 ^ n := by
  obtain ⟨x, y⟩ := p
  obtain ⟨hx, hy⟩ := hp
  unfold value shr Proper
  dsimp only at hx hy ⊢
  split
  · rename_i hlarge
    obtain ⟨d, rfl⟩ : ∃ d, n = 32 + d := ⟨n - 32, by omega⟩
    have hmod : d % 32 = d := Nat.mod_eq_of_lt (by omega)
    have hhigh : (x + 0x100000000 * y) / 0x100000000 = y := by omega
    have hquot : (x + 0x100000000 * y) / 2 ^ (32 + d) = y / 2 ^ d := by
      rw [Nat.pow_add, ← Nat.div_div_eq_div_mul]
      exact congrArg (· / 2 ^ d) hhigh
    have hle : y / 2 ^ d ≤ y := Nat.div_le_self _ _
    simp only [shiftLeft, shiftRight, Nat.add_sub_cancel_left, hmod, Nat.zero_mul, Nat.zero_mod,
      Nat.zero_div, Nat.or_zero, hquot]
    omega
  · have hmod : n % 32 = n := Nat.mod_eq_of_lt (by omega)
    have hmod' : (32 - n) % 32 = 32 - n := Nat.mod_eq_of_lt (by omega)
    have hsplit := split_pow (n := n) (by omega)
    have hbits : x / 2 ^ n < 2 ^ (32 - n) := by
      apply Nat.div_lt_of_lt_mul
      rw [Nat.mul_comm, hsplit]
      exact hx
    have hcarry : y * 2 ^ (32 - n) % 0x100000000 = y % 2 ^ n * 2 ^ (32 - n) := by
      rw [← hsplit, Nat.mul_comm (2 ^ (32 - n)), Nat.mul_mod_mul_right]
    have hquot : (x + 0x100000000 * y) / 2 ^ n = x / 2 ^ n + y * 2 ^ (32 - n) := by
      rw [← hsplit, show x + 2 ^ (32 - n) * 2 ^ n * y = x + y * 2 ^ (32 - n) * 2 ^ n by ring]
      exact Nat.add_mul_div_right _ _ (Nat.two_pow_pos n)
    have hparts : y * 2 ^ (32 - n) = y % 2 ^ n * 2 ^ (32 - n) + 0x100000000 * (y / 2 ^ n) := by
      conv_lhs => rw [← Nat.mod_add_div y (2 ^ n)]
      rw [← hsplit]
      ring
    have hor : x / 2 ^ n ||| y % 2 ^ n * 2 ^ (32 - n) =
        y % 2 ^ n * 2 ^ (32 - n) + x / 2 ^ n := by
      rw [Nat.or_comm]
      exact or_eq_add hbits
    have hlow : y % 2 ^ n * 2 ^ (32 - n) + x / 2 ^ n < 0x100000000 := by
      have hmod := Nat.mod_lt y (Nat.two_pow_pos n)
      have hle : (y % 2 ^ n + 1) * 2 ^ (32 - n) ≤ 2 ^ n * 2 ^ (32 - n) :=
        Nat.mul_le_mul_right _ hmod
      rw [Nat.mul_comm (2 ^ n), hsplit, Nat.add_mul, Nat.one_mul] at hle
      omega
    have hle : y / 2 ^ n ≤ y := Nat.div_le_self _ _
    simp only [shiftLeft, shiftRight, hmod, hmod', hcarry, hor, hquot]
    omega

/-! The next bit -/

theorem ntz_zero (ctz0 : Nat) : ntz ctz0 0 = ctz0 := by
  have hnone : ((List.range 32).find? fun i => (0 : Nat).testBit i) = none := by
    rw [List.find?_range_eq_none]
    intro i _
    rw [Nat.zero_testBit]
    rfl
  rw [ntz, hnone, Option.getD_none]

theorem ntz_eq {ctz0 d c : Nat} (hd : d < 32) (hodd : c % 2 = 1) :
    ntz ctz0 (2 ^ d * c % 0x100000000) = d := by
  have hfind : ((List.range 32).find? fun i => (2 ^ d * c % 0x100000000).testBit i) = some d := by
    rw [List.find?_range_eq_some]
    refine ⟨?_, List.mem_range.mpr hd, fun i hi => ?_⟩
    · rw [show 0x100000000 = 2 ^ 32 from rfl, Nat.testBit_mod_two_pow, Nat.testBit_two_pow_mul]
      simp [hd, hodd]
    · rw [show 0x100000000 = 2 ^ 32 from rfl, Nat.testBit_mod_two_pow, Nat.testBit_two_pow_mul]
      simp [Nat.not_le_of_lt hi]
  rw [ntz, hfind, Option.getD_some]

/-- `pntz` is right about a distance below 32, and for 32 if `__builtin_ctz` gives 32. -/
theorem pntz_eq {ctz0 d c : Nat} {p : Words} (hp : Proper p) (hvalue : value p = 1 + 2 ^ d * c)
    (hpos : 0 < d) (hodd : c % 2 = 1) (hdist : d < 32 ∨ ctz0 = 32 ∧ d = 32) : pntz ctz0 p = d := by
  unfold value at hvalue
  have hx := hp.1
  have hlow : (p.1 + 0xffffffff) % 0x100000000 = 2 ^ d * c % 0x100000000 := by omega
  unfold pntz
  rw [hlow]
  rcases hdist with hd | ⟨rfl, rfl⟩
  · rw [ntz_eq hd hodd, if_pos (by omega)]
  · rw [show 2 ^ 32 * c % 0x100000000 = 0 from Nat.mul_mod_right _ _, ntz_zero, if_pos (by decide)]

/-! Orders as bits -/

/-- The orders of trees as bits, counted from the first order. -/
def code : List Nat → Nat
  | k :: j :: orders => 1 + 2 ^ (j - k) * code (j :: orders)
  | _ => 1

structure Encodes (p : Words) (orders : List Nat) : Prop where
  proper : Proper p
  value : value p = code orders

variable {k j : Nat} {orders : List Nat} {p : Words}

theorem code_pos (orders : List Nat) : 0 < code orders := by
  match orders with
  | [] => exact Nat.one_pos
  | [_] => exact Nat.one_pos
  | k :: j :: orders =>
      rw [code]
      omega

/-- A power of two with a positive exponent is even. -/
theorem two_pow_even {d : Nat} (hd : 0 < d) : ∃ e, 2 ^ d = 2 * e := by
  obtain ⟨d, rfl⟩ : ∃ e, d = e + 1 := ⟨d - 1, by omega⟩
  exact ⟨2 ^ d, by rw [Nat.pow_succ, Nat.mul_comm]⟩

theorem code_odd (h : WellShaped orders) : code orders % 2 = 1 := by
  match orders, h with
  | [_], _ => rfl
  | k :: j :: orders, h =>
      have hlt := h.head_lt
      obtain ⟨e, he⟩ := two_pow_even (d := j - k) (by omega)
      rw [code, he, Nat.mul_assoc]
      omega

theorem code_lt (limit : Nat) (h : WellShaped (k :: orders)) (hle : ∀ i ∈ k :: orders, i < limit) :
    code (k :: orders) < 2 ^ (limit - k) := by
  induction orders generalizing k with
  | nil =>
      have hk := hle k List.mem_cons_self
      rw [code]
      · exact Nat.one_lt_two_pow (by omega)
      · exact nofun
  | cons j orders ih =>
      have hlt := h.head_lt
      have hj := hle j (List.mem_cons_of_mem _ List.mem_cons_self)
      have hrest := ih h.tail fun i hi => hle i (List.mem_cons_of_mem _ hi)
      have hpow : 2 ^ (limit - k) = 2 ^ (j - k) * 2 ^ (limit - j) := by
        rw [← Nat.pow_add]
        congr 1
        omega
      have hle' : 2 ^ (j - k) * (code (j :: orders) + 1) ≤ 2 ^ (j - k) * 2 ^ (limit - j) :=
        Nat.mul_le_mul_left _ hrest
      have htwo : 2 ^ 1 ≤ 2 ^ (j - k) := Nat.pow_le_pow_right (by decide) (by omega)
      rw [Nat.mul_add] at hle'
      rw [code, hpow]
      omega

theorem Encodes.one_iff (h : Encodes p (k :: orders)) : p = (1, 0) ↔ orders = [] := by
  have hvalue := h.value
  have hx := h.proper.1
  have hy := h.proper.2
  unfold Qsort.value at hvalue
  constructor
  · rintro rfl
    cases orders with
    | nil => rfl
    | cons j orders =>
        rw [code] at hvalue
        have hpos := code_pos (j :: orders)
        have hpos' := Nat.mul_pos (Nat.two_pow_pos (j - k)) hpos
        dsimp only at hvalue
        omega
  · rintro rfl
    rw [code] at hvalue
    · apply Prod.ext
      · dsimp only
        omega
      · dsimp only
        omega
    · exact nofun

/-- `pntz` and `shr` take the loop of `trinkle` to the next tree. -/
theorem Encodes.next {ctz0 : Nat} (h : Encodes p (k :: j :: orders))
    (hshape : WellShaped (k :: j :: orders)) (hdist : j - k < 32 ∨ ctz0 = 32 ∧ j - k = 32) :
    pntz ctz0 p = j - k ∧ Encodes (shr p (j - k)) (j :: orders) := by
  have hlt := hshape.head_lt
  have hvalue := h.value
  rw [code] at hvalue
  obtain ⟨hproper, hshift⟩ := shr_value h.proper (n := j - k) (by omega) (by omega)
  refine ⟨pntz_eq h.proper hvalue (by omega) (code_odd hshape.tail) hdist, hproper, ?_⟩
  have htwo : 1 < 2 ^ (j - k) := Nat.one_lt_two_pow (by omega)
  rw [hshift, hvalue, Nat.add_mul_div_left _ _ (Nat.two_pow_pos _), Nat.div_eq_of_lt htwo,
    Nat.zero_add]

theorem or_one {x : Nat} (heven : x % 2 = 0) : x ||| 1 = x + 1 := by
  have hor := or_eq_add (n := 1) (x := x / 2) (b := 1) (by decide)
  rw [Nat.pow_one, Nat.div_mul_cancel (Nat.dvd_of_mod_eq_zero heven)] at hor
  exact hor

theorem set_low (hp : Proper p) {v : Nat} (hvalue : value p = 2 * v) :
    Proper (p.1 ||| 1, p.2) ∧ value (p.1 ||| 1, p.2) = 2 * v + 1 := by
  unfold value at hvalue ⊢
  unfold Proper
  have hx := hp.1
  have hy := hp.2
  have hor := or_one (x := p.1) (by omega)
  dsimp only
  rw [hor]
  omega

/-- A smaller tree comes after the others. -/
theorem Encodes.cons (h : Encodes p (k :: orders)) (hlt : j < k)
    (hfits : code (k :: orders) * 2 ^ (k - j) < 0x10000000000000000) :
    Encodes ((shl p (k - j)).1 ||| 1, (shl p (k - j)).2) (j :: k :: orders) := by
  have hvalue := h.value
  have hpos := code_pos (k :: orders)
  obtain ⟨hproper, hshift⟩ := shl_value h.proper (n := k - j) (by omega) (by omega)
    (by rw [hvalue]; exact hfits)
  obtain ⟨e, he⟩ := two_pow_even (d := k - j) (by omega)
  have hdouble : Qsort.value (shl p (k - j)) = 2 * (e * code (k :: orders)) := by
    rw [hshift, hvalue, he]
    ring
  obtain ⟨hproper', hlow⟩ := set_low hproper hdouble
  refine ⟨hproper', ?_⟩
  rw [hlow, code, he]
  ring

theorem and_three (x : Nat) : x &&& 3 = x % 4 := Nat.and_two_pow_sub_one_eq_mod x 2

/-- The test for two trees that a new root joins. -/
theorem Encodes.joins_iff (h : Encodes p (k :: orders)) (hshape : WellShaped (k :: orders)) :
    p.1 &&& 3 = 3 ↔ orders.head? = some (k + 1) := by
  have hvalue := h.value
  unfold Qsort.value at hvalue
  rw [and_three]
  cases orders with
  | nil =>
      rw [code] at hvalue
      · constructor
        · intro hthree
          omega
        · exact nofun
      · exact nofun
  | cons j orders =>
      have hlt := hshape.head_lt
      have hodd := code_odd hshape.tail
      rw [code] at hvalue
      constructor
      · intro hthree
        by_contra hne
        have hge : k + 2 ≤ j := by
          have hne' : j ≠ k + 1 := fun heq => hne (by rw [heq]; rfl)
          omega
        obtain ⟨d, hd⟩ : ∃ d, j - k = 2 + d := ⟨j - k - 2, by omega⟩
        rw [hd, Nat.pow_add, Nat.mul_assoc] at hvalue
        omega
      · intro hnext
        obtain rfl : j = k + 1 := Option.some.inj hnext
        rw [Nat.add_sub_cancel_left, Nat.pow_one] at hvalue
        omega

theorem Encodes.join (h : Encodes p (k :: (k + 1) :: orders))
    (hshape : WellShaped (k :: (k + 1) :: orders)) :
    Encodes ((shr p 2).1 ||| 1, (shr p 2).2) ((k + 2) :: orders) := by
  have hvalue := h.value
  obtain ⟨hproper, hshift⟩ := shr_value h.proper (n := 2) (by decide) (by decide)
  rw [code, Nat.add_sub_cancel_left, Nat.pow_one] at hvalue
  cases orders with
  | nil =>
      rw [code] at hvalue
      · obtain ⟨hproper', hlow⟩ := set_low hproper (v := 0) (by rw [hshift, hvalue]; rfl)
        exact ⟨hproper', by rw [hlow, code]; exact nofun⟩
      · exact nofun
  | cons j orders =>
      have hgap := hshape.1.1
      obtain ⟨d, rfl⟩ : ∃ d, j = k + 3 + d := ⟨j - (k + 3), by omega⟩
      rw [code, show k + 3 + d - (k + 1) = d + 2 by omega] at hvalue
      have hdouble : Qsort.value (shr p 2) = 2 * (2 ^ d * code ((k + 3 + d) :: orders)) := by
        rw [hshift, hvalue, Nat.pow_add, Nat.mul_right_comm]
        omega
      obtain ⟨hproper', hlow⟩ := set_low hproper hdouble
      refine ⟨hproper', ?_⟩
      rw [hlow, code, show k + 3 + d - (k + 2) = d + 1 by omega, Nat.pow_succ]
      ring

theorem xor_seven {x : Nat} (hx : x % 8 = 4) : x ^^^ 7 = x - 1 := by
  have hlow : (x ^^^ 7) % 2 ^ 3 = 3 := by
    rw [Nat.xor_mod_two_pow, show 2 ^ 3 = 8 from rfl, hx]
    rfl
  have hhigh : (x ^^^ 7) / 2 ^ 3 = x / 2 ^ 3 := by
    rw [Nat.xor_div_two_pow]
    exact Nat.xor_zero _
  rw [show 2 ^ 3 = 8 from rfl] at hlow hhigh
  omega

/-- The last tree falls apart: first its left tree takes its place. -/
theorem Encodes.split (h : Encodes p ((k + 2) :: orders)) (hshape : WellShaped ((k + 2) :: orders))
    (hfits : code ((k + 2) :: orders) * 4 < 0x10000000000000000) :
    Encodes (shr ((shl p 2).1 ^^^ 7, (shl p 2).2) 1) ((k + 1) :: orders) := by
  have hvalue := h.value
  have hodd := code_odd hshape
  obtain ⟨hproper, hshift⟩ := shl_value h.proper (n := 2) (by decide) (by omega)
    (by rw [hvalue]; exact hfits)
  have hx := hproper.1
  have hy := hproper.2
  have hwhole := hshift
  unfold Qsort.value at hwhole
  rw [show (shl p 2).1 ^^^ 7 = (shl p 2).1 - 1 from
    xor_seven (by unfold Qsort.value at hvalue; omega)]
  have hproper' : Proper ((shl p 2).1 - 1, (shl p 2).2) := ⟨by dsimp only; omega, hy⟩
  obtain ⟨hproper'', hshift'⟩ := shr_value hproper' (n := 1) (by decide) (by decide)
  refine ⟨hproper'', ?_⟩
  rw [hshift']
  have hhalf : Qsort.value ((shl p 2).1 - 1, (shl p 2).2) / 2 ^ 1 =
      2 * code ((k + 2) :: orders) - 1 := by
    unfold Qsort.value
    dsimp only
    unfold Qsort.value at hvalue
    omega
  rw [hhalf]
  cases orders with
  | nil =>
      rw [code, code]
      · exact nofun
      · exact nofun
  | cons j orders =>
      have hlt := hshape.head_lt
      rw [code, code, show j - (k + 1) = j - (k + 2) + 1 by omega, Nat.pow_succ]
      have hexpand : 2 ^ (j - (k + 2)) * 2 * code (j :: orders) =
          2 * (2 ^ (j - (k + 2)) * code (j :: orders)) := by ring
      rw [hexpand]
      omega

end Qsort

end WasixLibc
