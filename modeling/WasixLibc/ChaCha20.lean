/-
The ChaCha20 block function.

The state is four rows of four words.  A column round works down each column, a
diagonal round down each column of the rows turned, row `r` by `r` places.
-/
import Mathlib.Data.Fin.VecNotation
import Mathlib.Logic.Function.Iterate

namespace WasixLibc

namespace ChaCha20

abbrev Word := BitVec 32

abbrev Matrix := Fin 4 → Fin 4 → Word

/-- The quarter round of four words. -/
def quarterRound (v : Fin 4 → Word) : Fin 4 → Word :=
  let a := v 0 + v 1
  let d := (v 3 ^^^ a).rotateLeft 16
  let c := v 2 + d
  let b := (v 1 ^^^ c).rotateLeft 12
  let a := a + b
  let d := (d ^^^ a).rotateLeft 8
  let c := c + d
  let b := (b ^^^ c).rotateLeft 7
  ![a, b, c, d]

/-- Four values as four arguments. -/
def spread {α β : Type} (f : α → α → α → α → β) (v : Fin 4 → α) : β := f (v 0) (v 1) (v 2) (v 3)

def columnRound (m : Matrix) : Matrix := fun r c => quarterRound (fun row => m row c) r

/-- The diagonals as columns, and back. -/
def skew (m : Matrix) : Matrix := fun r c => m r (c + r)

def unskew (m : Matrix) : Matrix := fun r c => m r (c - r)

def diagonalRound (m : Matrix) : Matrix := unskew (columnRound (skew m))

/-- Twenty rounds. -/
def permute (m : Matrix) : Matrix := (fun m => diagonalRound (columnRound m))^[10] m

/-- The rounds work on a copy, to which the state is added. -/
def block (m : Matrix) : Matrix := fun r c => m r c + permute m r c

def constants : Fin 4 → Word := ![0x61707865, 0x3320646e, 0x79622d32, 0x6b206574]

/-- The constants, the key, the block counter and the nonce. -/
def initial (key : Fin 8 → Word) (counter : Word) (nonce : Fin 3 → Word) : Matrix :=
  ![constants, ![key 0, key 1, key 2, key 3], ![key 4, key 5, key 6, key 7],
    ![counter, nonce 0, nonce 1, nonce 2]]

section Initial

variable (key : Fin 8 → Word) (counter : Word) (nonce : Fin 3 → Word)

theorem initial_zero : initial key counter nonce 0 = constants := rfl

theorem initial_one : initial key counter nonce 1 = ![key 0, key 1, key 2, key 3] := rfl

theorem initial_two : initial key counter nonce 2 = ![key 4, key 5, key 6, key 7] := rfl

theorem initial_three :
    initial key counter nonce 3 = ![counter, nonce 0, nonce 1, nonce 2] := rfl

end Initial

/-- The words of the rows in turn, the lowest byte of each first. -/
def serialize (m : Matrix) (i : Fin 64) : BitVec 8 :=
  (m ⟨i.val / 16, by omega⟩ ⟨i.val / 4 % 4, by omega⟩ >>> (8 * (i.val % 4))).setWidth 8

end ChaCha20

end WasixLibc
