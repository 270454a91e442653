/-
The keystream of `chacha20_rng`, beside that of ChaCha20.

Each block of the code works on the state that the rounds of the block before
left; each block of the cipher on the initial state with the next counter.
-/
import WasixLibc.Arc4random
import WasixLibc.ChaCha20

namespace WasixLibc

namespace Arc4random

open ChaCha20 (Matrix spread quarterRound columnRound diagonalRound permute block serialize
  initial_zero initial_one initial_two initial_three)

theorem rotl32_eq_rotateLeft (x : Word) {b : Nat} (h : b < 32) : rotl32 x b = x.rotateLeft b := by
  rw [rotl32, BitVec.rotateLeft_def, Nat.mod_eq_of_lt h]

/-! Words of a state -/

theorem place_lt (x : Fin 16) : x.val < 16 := x.isLt

theorem get_set_self (st : St) (x : Fin 16) (v : Word) :
    (st.set x v (place_lt x)).get x = v := Vector.getElem_set_self (place_lt x)

theorem get_set_ne (st : St) {x i : Fin 16} (v : Word) (h : i ≠ x) :
    (st.set x v (place_lt x)).get i = st.get i :=
  Vector.getElem_set_ne (place_lt x) (place_lt i) (fun heq => h (Fin.ext heq.symm))

/-- Two lines of a quarter round. -/
def addRotate (st : St) (x y z : Fin 16) (n : Nat) : St :=
  let st := st.set x (st.get x + st.get y) (place_lt x)
  st.set z (rotl32 (st.get z ^^^ st.get x) n) (place_lt z)

theorem quarterround_eq (st : St) (a b c d : Fin 16) :
    quarterround st a b c d =
      addRotate (addRotate (addRotate (addRotate st a b d 16) c d b 12) a b d 8) c d b 7 := rfl

section AddRotate

variable {st : St} {x y z i : Fin 16} {n : Nat}

theorem addRotate_sum (hxz : x ≠ z) : (addRotate st x y z n).get x = st.get x + st.get y := by
  unfold addRotate
  dsimp only
  rw [get_set_ne _ _ hxz, get_set_self]

theorem addRotate_rotated (hxz : x ≠ z) :
    (addRotate st x y z n).get z = rotl32 (st.get z ^^^ (st.get x + st.get y)) n := by
  unfold addRotate
  dsimp only
  rw [get_set_self, get_set_self, get_set_ne _ _ hxz.symm]

theorem addRotate_other (hx : i ≠ x) (hz : i ≠ z) :
    (addRotate st x y z n).get i = st.get i := by
  unfold addRotate
  dsimp only
  rw [get_set_ne _ _ hz, get_set_ne _ _ hx]

end AddRotate

/-! Quarter rounds, one after the other -/

/-- The quarter round of four places. -/
def quarterroundAt (p : Fin 4 → Fin 16) (st : St) : St := spread (quarterround st) p

theorem quarterroundAt_other {st : St} {p : Fin 4 → Fin 16} {i : Fin 16} (hi : ∀ r, i ≠ p r) :
    (quarterroundAt p st).get i = st.get i := by
  unfold quarterroundAt spread
  rw [quarterround_eq, addRotate_other (hi 2) (hi 1), addRotate_other (hi 0) (hi 3),
    addRotate_other (hi 2) (hi 1), addRotate_other (hi 0) (hi 3)]

theorem quarterroundAt_get (st : St) {p : Fin 4 → Fin 16} (hp : Function.Injective p) (r : Fin 4) :
    (quarterroundAt p st).get (p r) = quarterRound (fun row => st.get (p row)) r := by
  have hne : ∀ {i j : Fin 4}, i ≠ j → p i ≠ p j := fun h heq => h (hp heq)
  have h01 := hne (show (0 : Fin 4) ≠ 1 by decide)
  have h02 := hne (show (0 : Fin 4) ≠ 2 by decide)
  have h03 := hne (show (0 : Fin 4) ≠ 3 by decide)
  have h12 := hne (show (1 : Fin 4) ≠ 2 by decide)
  have h13 := hne (show (1 : Fin 4) ≠ 3 by decide)
  have h23 := hne (show (2 : Fin 4) ≠ 3 by decide)
  unfold quarterroundAt spread
  rw [quarterround_eq]
  obtain rfl | rfl | rfl | rfl : r = 0 ∨ r = 1 ∨ r = 2 ∨ r = 3 := by omega
  all_goals
    simp only [addRotate_sum, addRotate_rotated,
      addRotate_other, ne_eq, h01, h02, h03, h13, h23, h01.symm, h02.symm, h12.symm,
      h13.symm, h23.symm, not_false_eq_true, rotl32_eq_rotateLeft _ (show 16 < 32 by decide),
      rotl32_eq_rotateLeft _ (show 12 < 32 by decide),
      rotl32_eq_rotateLeft _ (show 8 < 32 by decide),
      rotl32_eq_rotateLeft _ (show 7 < 32 by decide)]
    rfl

/-- Quarter rounds at places that do not meet. -/
theorem foldl_quarterroundAt {place : Fin 4 → Fin 4 → Fin 16}
    (hinj : ∀ c c' r r', place c r = place c' r' → c = c' ∧ r = r') (cs : List (Fin 4))
    (hcs : cs.Nodup)
    (st : St) (c r : Fin 4) :
    (cs.foldl (fun st c => quarterroundAt (place c) st) st).get (place c r) =
      if c ∈ cs then quarterRound (fun row => st.get (place c row)) r
      else st.get (place c r) := by
  induction cs generalizing st with
  | nil => rfl
  | cons head cs ih =>
      obtain ⟨hhead, hcs⟩ := List.nodup_cons.mp hcs
      rw [List.foldl_cons, ih hcs]
      by_cases hc : c = head
      · subst hc
        rw [if_neg hhead, if_pos List.mem_cons_self]
        exact quarterroundAt_get st (fun r r' h => (hinj _ _ _ _ h).2) r
      · have hother : ∀ row,
            (quarterroundAt (place head) st).get (place c row) = st.get (place c row) :=
          fun row => quarterroundAt_other (fun row' h => hc (hinj _ _ _ _ h).1)
        simp only [List.mem_cons, hc, false_or, hother]

/-- The word of a state in column `c` and row `r`. -/
def column (c r : Fin 4) : Fin 16 := ⟨4 * r.val + c.val, by omega⟩

def diagonal (c r : Fin 4) : Fin 16 := column (c + r) r

theorem doubleround_eq (st : St) :
    doubleround st =
      [0, 1, 2, 3].foldl (fun st c => quarterroundAt (diagonal c) st)
        ([0, 1, 2, 3].foldl (fun st c => quarterroundAt (column c) st) st) := by
  have hplaces : ∀ (p : Fin 4 → Fin 16) {a b c d : Fin 16}, p 0 = a → p 1 = b → p 2 = c → p 3 = d →
      ∀ st, quarterroundAt p st = quarterround st a b c d := by
    intro p a b c d ha hb hc hd st
    rw [quarterroundAt, spread, ha, hb, hc, hd]
  unfold doubleround
  simp only [List.foldl_cons, List.foldl_nil, hplaces (column 0) rfl rfl rfl rfl,
    hplaces (column 1) rfl rfl rfl rfl, hplaces (column 2) rfl rfl rfl rfl,
    hplaces (column 3) rfl rfl rfl rfl, hplaces (diagonal 0) rfl rfl rfl rfl,
    hplaces (diagonal 1) rfl rfl rfl rfl, hplaces (diagonal 2) rfl rfl rfl rfl,
    hplaces (diagonal 3) rfl rfl rfl rfl]
  rfl

/-- The rows of a state. -/
def matrix (st : St) : Matrix := fun r c => st.get (column c r)

theorem matrix_columns (st : St) :
    matrix ([0, 1, 2, 3].foldl (fun st c => quarterroundAt (column c) st) st) =
      columnRound (matrix st) := by
  funext r c
  unfold matrix
  rw [foldl_quarterroundAt (by decide) _ (by decide), if_pos (by revert c; decide)]
  rfl

theorem matrix_diagonals (st : St) :
    matrix ([0, 1, 2, 3].foldl (fun st c => quarterroundAt (diagonal c) st) st) =
      diagonalRound (matrix st) := by
  funext r c
  have hplace : column c r = diagonal (c - r) r := by
    unfold diagonal
    congr 1
    omega
  have hfold := @foldl_quarterroundAt diagonal (by decide) [0, 1, 2, 3] (by decide) st
    (c - r) r
  rw [if_pos (by generalize c - r = d; revert d; decide)] at hfold
  rw [← hplace] at hfold
  exact hfold

theorem matrix_rounds (st : St) : matrix (rounds st) = permute (matrix st) := by
  have hrepeat : ∀ n st, matrix (Nat.repeat doubleround n st) =
      (fun m => diagonalRound (columnRound m))^[n] (matrix st) := by
    intro n
    induction n with
    | zero => exact fun _ => rfl
    | succ n ih =>
        intro st
        rw [Nat.repeat, Function.iterate_succ_apply', ← ih, doubleround_eq, matrix_diagonals,
          matrix_columns]
  exact hrepeat 10 st

/-! Blocks -/

/-- A block of the code is the block function of the state it starts from. -/
theorem chacha20Update_bytes (st : St) (i : Fin 64) :
    (chacha20Update st).1.get i = serialize (block (matrix st)) i := by
  have hplace : (⟨i.val / 4, by omega⟩ : Fin 16) =
      column ⟨i.val / 4 % 4, by omega⟩ ⟨i.val / 16, by omega⟩ := by
    apply Fin.ext
    show i.val / 4 = 4 * (i.val / 16) + i.val / 4 % 4
    omega
  have hword : ∀ st : St, st.get ⟨i.val / 4, by omega⟩ =
      matrix st ⟨i.val / 16, by omega⟩ ⟨i.val / 4 % 4, by omega⟩ :=
    fun st => congrArg st.get hplace
  have hbyte : (chacha20Update st).1.get i =
      ((Vector.ofFn (fun j : Fin 16 => st[j] + (rounds st)[j]))[i.val / 4] >>>
        (8 * (i.val % 4))).setWidth 8 := Vector.getElem_ofFn i.isLt
  rw [hbyte, Vector.getElem_ofFn]
  unfold serialize block
  rw [← matrix_rounds, ← hword, ← hword]
  rfl

/-- The words of the key, the lowest byte of each first. -/
def keyWords (key : Key) (i : Fin 8) : Word :=
  let byte (n : Nat) := key.toList.getD n 0
  word (byte (4 * i.val)) (byte (4 * i.val + 1)) (byte (4 * i.val + 2)) (byte (4 * i.val + 3))

theorem key_getD (key : Key) {n : Nat} (hn : n < 32) : key[n] = key.toList.getD n 0 := by
  rw [← Vector.getElem_toList (by rw [Vector.length_toList]; exact hn)]
  exact List.getElem_eq_getD 0

/-- The initial state of the cipher, with the nonce of zeros. -/
def cipherState (key : Key) (counter : Nat) : Matrix :=
  ChaCha20.initial (keyWords key) (BitVec.ofNat 32 counter) (fun _ => 0)

/-- A byte of `Block(key, counter)`. -/
def blockByte (key : Key) (counter : Nat) (i : Fin 64) : Byte :=
  serialize (block (cipherState key counter)) i

theorem chacha20Init_get (key : Key) (i : Fin 16) :
    (chacha20Init key).get i =
      if h : i.val < 4 then ChaCha20.constants ⟨i.val, h⟩
      else if h : i.val < 12 then keyWords key ⟨i.val - 4, by omega⟩
      else 0 := by
  have hconstants : ∀ (j : Nat) (h : j < 4), constants[j] = ChaCha20.constants ⟨j, h⟩ := by
    decide
  have hget : (chacha20Init key).get i = (chacha20Init key)[i.val] := rfl
  rw [hget]
  unfold chacha20Init
  rw [Vector.getElem_append]
  by_cases hkey : i.val < 12
  · rw [dif_pos hkey, Vector.getElem_append]
    by_cases hconst : i.val < 4
    · rw [dif_pos hconst, dif_pos hconst]
      exact hconstants i.val hconst
    · rw [dif_neg hconst, dif_neg hconst, dif_pos hkey, Vector.getElem_ofFn]
      unfold keyWords
      rw [key_getD, key_getD, key_getD, key_getD]
  · rw [dif_neg hkey, dif_neg (by omega), dif_neg hkey]
    exact Vector.getElem_replicate (by omega)

theorem matrix_chacha20Init (key : Key) : matrix (chacha20Init key) = cipherState key 0 := by
  funext r c
  unfold matrix
  rw [chacha20Init_get]
  obtain rfl | rfl | rfl | rfl : r = 0 ∨ r = 1 ∨ r = 2 ∨ r = 3 := by omega
  all_goals
    obtain rfl | rfl | rfl | rfl : c = 0 ∨ c = 1 ∨ c = 2 ∨ c = 3 := by omega
    all_goals rfl

/-- The counter is the one word that differs. -/
theorem cipherState_counter (key : Key) (counter : Nat) {r c : Fin 4} (h : ¬ (r = 3 ∧ c = 0)) :
    cipherState key counter r c = cipherState key 0 r c := by
  unfold cipherState
  obtain rfl | rfl | rfl | rfl : r = 0 ∨ r = 1 ∨ r = 2 ∨ r = 3 := by omega
  · rw [initial_zero, initial_zero]
  · rw [initial_one, initial_one]
  · rw [initial_two, initial_two]
  · rw [initial_three, initial_three]
    obtain ⟨later, rfl⟩ := Fin.exists_succ_eq_of_ne_zero (fun hzero => h ⟨rfl, hzero⟩)
    rw [Matrix.cons_val_succ, Matrix.cons_val_succ]

theorem counter_lt : 12 < 16 := by decide

def counterPlace : Fin 16 := ⟨12, counter_lt⟩

theorem matrix_set_counter (key : Key) (counter : Nat) :
    matrix ((chacha20Init key).set counterPlace (BitVec.ofNat 32 counter)
      (place_lt counterPlace)) = cipherState key counter := by
  funext r c
  by_cases hplace : r = 3 ∧ c = 0
  · obtain ⟨rfl, rfl⟩ := hplace
    exact get_set_self _ counterPlace _
  · have hne : column c r ≠ counterPlace := by
      intro heq
      have hval : 4 * r.val + c.val = 12 := congrArg Fin.val heq
      omega
    rw [cipherState_counter key counter hplace, ← matrix_chacha20Init]
    exact get_set_ne _ _ hne

/-! A run of blocks -/

/-- The state after some blocks. -/
def stateAfter : Nat → St → St
  | 0, st => st
  | n + 1, st => stateAfter n (chacha20Update st).2

/-- One more in the counter of a state. -/
def raise (m : Matrix) : Matrix := fun r c =>
  if (column c r).val = counterPlace.val then m r c + 1 else m r c

/-- What is left for the block with this counter: the initial state after as many
times twenty rounds, the counter raised after each. -/
def carried (key : Key) (counter : Nat) : Matrix :=
  (fun m => raise (permute m))^[counter] (cipherState key 0)

theorem matrix_chacha20Update (st : St) :
    matrix (chacha20Update st).2 = raise (permute (matrix st)) := by
  rw [← matrix_rounds]
  unfold chacha20Update
  generalize rounds st = after
  funext r c
  unfold raise
  by_cases hplace : (column c r).val = counterPlace.val
  · rw [if_pos hplace]
    unfold matrix
    rw [Fin.ext hplace]
    exact get_set_self _ counterPlace _
  · rw [if_neg hplace]
    exact get_set_ne _ _ (fun heq => hplace (congrArg Fin.val heq))

theorem matrix_stateAfter (key : Key) (n : Nat) :
    matrix (stateAfter n (chacha20Init key)) = carried key n := by
  have hafter : ∀ n st, matrix (stateAfter n st) =
      (fun m => raise (permute m))^[n] (matrix st) := by
    intro n
    induction n with
    | zero => exact fun _ => rfl
    | succ n ih =>
        intro st
        rw [stateAfter, ih, matrix_chacha20Update, Function.iterate_succ_apply]
  rw [hafter, matrix_chacha20Init]
  rfl

/-- A place in a block. -/
def byteIndex (i : Nat) : Fin 64 := ⟨i % 64, Nat.mod_lt i (by decide)⟩

theorem chacha20Blocks_get (len : Nat) (st : St) {i : Nat} (hi : i < len) :
    (chacha20Blocks len st)[i]? =
      some ((chacha20Update (stateAfter (i / 64) st)).1.get (byteIndex i)) := by
  induction len using Nat.strongRecOn generalizing st i with
  | _ len ih =>
      have hfirst : i < 64 → (chacha20Update st).1.toList[i]? =
          some ((chacha20Update (stateAfter (i / 64) st)).1.get (byteIndex i)) := by
        intro hlt
        have hlist : i < (chacha20Update st).1.toList.length := by
          rw [Vector.length_toList]
          exact hlt
        have hindex : byteIndex i = ⟨i, hlt⟩ := Fin.ext (Nat.mod_eq_of_lt hlt)
        rw [List.getElem?_eq_getElem hlist, Vector.getElem_toList, Nat.div_eq_of_lt hlt, hindex]
        rfl
      rw [chacha20Blocks]
      split
      · by_cases hlt : i < 64
        · rw [List.getElem?_append_left (by rw [Vector.length_toList]; exact hlt)]
          exact hfirst hlt
        · have hrest := ih (len - 64) (by omega) (chacha20Update st).2 (i := i - 64) (by omega)
          have hdiv : i / 64 = (i - 64) / 64 + 1 := by omega
          have hindex : byteIndex i = byteIndex (i - 64) :=
            Fin.ext (show i % 64 = (i - 64) % 64 by omega)
          rw [List.getElem?_append_right (by rw [Vector.length_toList]; omega),
            Vector.length_toList, hrest, hdiv, hindex]
          rfl
      · rw [if_pos (by omega), List.getElem?_take, if_pos hi]
        exact hfirst (by omega)

/-- A byte of the output comes from the state that the blocks before it left. -/
theorem chacha20Rng_get (key : Key) {len i : Nat} (hi : i < len) :
    (chacha20Rng len key).1[i]? =
      some (serialize (block (carried key (i / 64 + 1))) (byteIndex i)) := by
  rw [← matrix_stateAfter, ← chacha20Update_bytes]
  unfold chacha20Rng
  dsimp only
  rw [List.getElem?_append_left (by rw [length_chacha20Blocks]; exact hi),
    chacha20Blocks_get len _ hi]
  rfl

theorem key_le : 32 ≤ 64 := by decide

/-- The key becomes the first 32 bytes of `Block(key, 0)`, and the output is the
leading bytes of `Block(key, 1)`, `Block(key, 2)`, and so on. -/
def Conforms (len : Nat) (key : Key) : Prop :=
  (∀ i : Fin 32, (chacha20Rng len key).2.get i = blockByte key 0 (i.castLE key_le)) ∧
  ∀ i < len, (chacha20Rng len key).1[i]? = some (blockByte key (i / 64 + 1) (byteIndex i))

/-- The key is always right. -/
theorem chacha20Rng_key (len : Nat) (key : Key) (i : Fin 32) :
    (chacha20Rng len key).2.get i = blockByte key 0 (i.castLE key_le) := by
  unfold blockByte
  rw [← matrix_chacha20Init, ← chacha20Update_bytes]
  exact Vector.getElem_ofFn i.isLt

/-- The block function takes what is carried to a block and the initial state with
the counter of that block to the same leading bytes. -/
def StartsAlike (len : Nat) (key : Key) : Prop :=
  ∀ i < len,
    serialize (block (carried key (i / 64 + 1))) (byteIndex i) =
      serialize (block (cipherState key (i / 64 + 1))) (byteIndex i)

theorem conforms_iff_startsAlike (len : Nat) (key : Key) :
    Conforms len key ↔ StartsAlike len key := by
  constructor
  · rintro ⟨_, hout⟩ i hi
    have hbyte := hout i hi
    rw [chacha20Rng_get key hi] at hbyte
    exact Option.some.inj hbyte
  · intro hbytes
    refine ⟨chacha20Rng_key len key, fun i hi => ?_⟩
    rw [chacha20Rng_get key hi, hbytes i hi]
    rfl

/-- The first byte of an output that conforms. -/
theorem Conforms.first {len : Nat} {key : Key} (h : Conforms len key) (hpos : 0 < len) :
    (chacha20Update (chacha20Update (chacha20Init key)).2).1.get (byteIndex 0) =
      blockByte key 1 (byteIndex 0) := by
  have hbyte := (conforms_iff_startsAlike len key).mp h 0 hpos
  rw [← matrix_stateAfter, ← chacha20Update_bytes] at hbyte
  exact hbyte

/-- With this key the first byte is `b7`; that of `Block(key, 1)` is `9f`. -/
def zeroKey : Key := Vector.replicate 32 0

theorem zeroKey_first :
    (chacha20Update (chacha20Update (chacha20Init zeroKey)).2).1.get (byteIndex 0) = 0xb7 := by
  decide +kernel

theorem zeroKey_block : blockByte zeroKey 1 (byteIndex 0) = 0x9f := by
  unfold blockByte
  rw [← matrix_set_counter, ← chacha20Update_bytes]
  decide +kernel

theorem not_conforms_of_pos {len : Nat} (hpos : 0 < len) : ¬ Conforms len zeroKey := by
  intro hconforms
  have hbyte := hconforms.first hpos
  rw [zeroKey_first, zeroKey_block] at hbyte
  exact absurd hbyte (by decide)

/-- A key has its keystream where the blocks start alike, and every key has it for
no bytes only. -/
theorem chacha20_rng_conforms_iff (len : Nat) :
    (∀ key, Conforms len key ↔ StartsAlike len key) ∧ ((∀ key, Conforms len key) ↔ len = 0) := by
  refine ⟨conforms_iff_startsAlike len, ?_, ?_⟩
  · intro hconforms
    by_contra hne
    exact not_conforms_of_pos (Nat.pos_of_ne_zero hne) (hconforms zeroKey)
  · rintro rfl key
    exact (conforms_iff_startsAlike 0 key).mpr (fun i hi => absurd hi (Nat.not_lt_zero i))

/-- The first byte of a short output, and a whole block of it, are wrong. -/
theorem zeroKey_not_keystream : ¬ Conforms 1 zeroKey ∧ ¬ Conforms 64 zeroKey :=
  ⟨not_conforms_of_pos (by decide), not_conforms_of_pos (by decide)⟩

end Arc4random

end WasixLibc
