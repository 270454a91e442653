/-
Integer constant expressions of C on a target with a 32-bit `int`: literals,
unary plus, casts and left shifts.

A value is in the range of its type.  An expression has no value where C leaves
the behaviour undefined.
-/
import Mathlib.Algebra.Order.Ring.Int
import Mathlib.Algebra.Order.Ring.Nat
import Mathlib.Tactic.NormNum

namespace WasixLibc

namespace CInteger

structure IntType where
  signed : Bool
  width : Nat
  pos : 0 < width
deriving DecidableEq

namespace IntType

def int : IntType := ⟨true, 32, by decide⟩

def longLong : IntType := ⟨true, 64, by decide⟩

def unsigned (width : Nat) (pos : 0 < width) : IntType := ⟨false, width, pos⟩

/-- The numbers of the type. -/
def InRange (type : IntType) (value : Int) : Prop :=
  if type.signed then -2 ^ (type.width - 1) ≤ value ∧ value < 2 ^ (type.width - 1)
  else 0 ≤ value ∧ value < 2 ^ type.width

instance (type : IntType) (value : Int) : Decidable (type.InRange value) := by
  unfold InRange
  infer_instance

/-- The number of the type that is congruent to `value`. -/
def wrap (type : IntType) (value : Int) : Int :=
  if type.signed then value.bmod (2 ^ type.width) else value % 2 ^ type.width

theorem two_pow_width (type : IntType) : (2 : Int) ^ type.width = 2 * 2 ^ (type.width - 1) := by
  rw [← pow_succ', Nat.sub_add_cancel type.pos]

theorem wrap_inRange (type : IntType) (value : Int) : type.InRange (type.wrap value) := by
  have hwidth := type.two_pow_width
  have hcast : ((2 ^ type.width : Nat) : Int) = 2 ^ type.width := by push_cast; rfl
  have hpos : (0 : Int) < 2 ^ (type.width - 1) := pow_pos (by decide) _
  unfold InRange wrap
  split
  · have hle := @Int.le_bmod value (2 ^ type.width) (Nat.two_pow_pos _)
    have hlt := @Int.bmod_lt value (2 ^ type.width) (Nat.two_pow_pos _)
    rw [hcast] at hle hlt
    omega
  · exact ⟨Int.emod_nonneg _ (by omega), Int.emod_lt_of_pos _ (by omega)⟩

theorem wrap_of_inRange {type : IntType} {value : Int} (h : type.InRange value) :
    type.wrap value = value := by
  have hwidth := type.two_pow_width
  have hcast : ((2 ^ type.width : Nat) : Int) = 2 ^ type.width := by push_cast; rfl
  unfold InRange wrap at *
  split
  · rw [if_pos (by assumption)] at h
    apply Int.bmod_eq_of_le
    · rw [hcast]
      omega
    · rw [hcast]
      omega
  · rw [if_neg (by assumption)] at h
    exact Int.emod_eq_of_lt h.1 h.2

/-- A power of two that a type has room for. -/
theorem two_pow_inRange {type : IntType} {i : Nat}
    (hi : i + (if type.signed then 1 else 0) < type.width) : type.InRange (2 ^ i) := by
  have hpos : (0 : Int) < 2 ^ i := pow_pos (by decide) _
  unfold InRange
  split
  · rw [if_pos (by assumption)] at hi
    have hlt : (2 : Int) ^ i < 2 ^ (type.width - 1) := pow_lt_pow_right₀ (by decide) (by omega)
    have hneg : -(2 : Int) ^ (type.width - 1) ≤ 0 := by omega
    exact ⟨hneg.trans hpos.le, hlt⟩
  · rw [if_neg (by assumption)] at hi
    exact ⟨hpos.le, pow_lt_pow_right₀ (by decide) hi⟩

theorem int_inRange_iff {value : Int} :
    int.InRange value ↔ -2147483648 ≤ value ∧ value < 2147483648 := by
  unfold InRange int
  norm_num

end IntType

/-- A number with its type. -/
structure Value where
  type : IntType
  number : Int
  inRange : type.InRange number
deriving DecidableEq

namespace Value

/-- The value of a type that is this number. -/
def ofNumber? (type : IntType) (number : Int) : Option Value :=
  if h : type.InRange number then some ⟨type, number, h⟩ else none

theorem ofNumber?_of_inRange {type : IntType} {number : Int} (h : type.InRange number) :
    ofNumber? type number = some ⟨type, number, h⟩ := dif_pos h

/-- Conversion to another type, modulo its range. -/
def convert (type : IntType) (value : Value) : Value :=
  ⟨type, type.wrap value.number, type.wrap_inRange value.number⟩

theorem convert_of_inRange {type : IntType} {value : Value} (h : type.InRange value.number) :
    value.convert type = ⟨type, value.number, h⟩ := by
  unfold convert
  simp only [IntType.wrap_of_inRange h]

/-- The integer promotion: a type that is narrower than `int` becomes `int`. -/
def promote (value : Value) : Value :=
  if value.type.width < 32 then value.convert .int else value

theorem promote_of_wide {value : Value} (h : 32 ≤ value.type.width) : value.promote = value :=
  if_neg (not_lt.mpr h)

/-- A literal without a suffix has the first type it fits in. -/
def literal (n : Nat) : Option Value :=
  (ofNumber? .int n).or (ofNumber? .longLong n)

/-- A shift by a number that is negative or not below the width is undefined,
and so is a signed one of a negative number or past the range. -/
def shiftBy (value : Value) (count : Int) : Option Value :=
  if 0 ≤ count ∧ count < value.type.width then
    let exact := value.number * 2 ^ count.toNat
    if value.type.signed then
      if 0 ≤ value.number then ofNumber? value.type exact else none
    else ofNumber? value.type (value.type.wrap exact)
  else none

/-- The operands of a shift are promoted separately. -/
def shiftLeft (left right : Value) : Option Value := left.promote.shiftBy right.promote.number

end Value

inductive Expr where
  | literal (n : Nat)
  | plus (operand : Expr)
  | cast (type : IntType) (operand : Expr)
  | shiftLeft (left right : Expr)
deriving DecidableEq

namespace Expr

/-- The value of an expression, if its behaviour is defined. -/
def eval : Expr → Option Value
  | literal n => Value.literal n
  | plus operand => operand.eval.map Value.promote
  | cast type operand => operand.eval.map (Value.convert type)
  | shiftLeft left right =>
      left.eval.bind (fun left => right.eval.bind (fun right => left.shiftLeft right))

section Eval

variable (left right operand : Expr)

theorem eval_literal (n : Nat) : (literal n).eval = Value.literal n := rfl

theorem eval_plus : (plus operand).eval = operand.eval.map Value.promote := rfl

theorem eval_cast (type : IntType) :
    (cast type operand).eval = operand.eval.map (Value.convert type) := rfl

theorem eval_shiftLeft : (shiftLeft left right).eval =
    left.eval.bind (fun left => right.eval.bind (fun right => left.shiftLeft right)) := rfl

end Eval

theorem two_pow_inRange_int {i : Nat} (hi : i < 31) : IntType.int.InRange (2 ^ i) :=
  IntType.two_pow_inRange (Nat.succ_lt_succ hi)

def one : Value := ⟨.int, 1, by decide⟩

/-- One, shifted left: the sign bit is out of reach. -/
theorem shiftBy_one (count : Int) :
    one.shiftBy count =
      if 0 ≤ count ∧ count < 31 then Value.ofNumber? .int (2 ^ count.toNat) else none := by
  have hone : one.number * 2 ^ count.toNat = 2 ^ count.toNat := one_mul _
  unfold Value.shiftBy
  simp only [hone]
  split
  · rename_i hcount
    by_cases hlast : count = 31
    · subst hlast
      decide
    · have hlt : count < 32 := hcount.2
      have hsigned : one.type.signed = true := rfl
      have hnumber : 0 ≤ one.number := by decide
      rw [if_pos hsigned, if_pos hnumber, if_pos ⟨hcount.1, by omega⟩]
      rfl
  · rename_i hcount
    have hnot : ¬ (0 ≤ count ∧ count < 31) := by
      rintro ⟨hnonneg, hlt⟩
      exact hcount ⟨hnonneg, hlt.trans (by decide)⟩
    rw [if_neg hnot]

/-- Every literal keeps its value and is as wide as `int`. -/
theorem literal_spec {n : Nat} {value : Value} (h : Value.literal n = some value) :
    value.number = n ∧ 32 ≤ value.type.width := by
  unfold Value.literal Value.ofNumber? at h
  split at h
  · cases h
    exact ⟨rfl, le_refl 32⟩
  · split at h
    · cases h
      exact ⟨rfl, Nat.le_add_left 32 32⟩
    · cases h

theorem literal_of_inRange {n : Nat} (h : IntType.int.InRange n) :
    Value.literal n = some ⟨.int, n, h⟩ := by
  unfold Value.literal
  rw [Value.ofNumber?_of_inRange h, Option.some_or]

theorem shiftLeft_one {count : Value} (hcount : 32 ≤ count.type.width) :
    one.shiftLeft count = one.shiftBy count.number := by
  unfold Value.shiftLeft
  rw [Value.promote_of_wide hcount, Value.promote_of_wide (le_refl 32)]

theorem eval_shiftLeft_one (i : Nat) :
    (shiftLeft (literal 1) (literal i)).eval =
      if i < 31 then Value.ofNumber? .int (2 ^ i) else none := by
  have hone : Value.literal 1 = some one := literal_of_inRange one.inRange
  rw [eval_shiftLeft, eval_literal, eval_literal, hone, Option.bind_some]
  cases hliteral : Value.literal i with
  | none =>
      have hlarge : ¬ i < 31 := by
        intro hlt
        rw [literal_of_inRange (IntType.int_inRange_iff.mpr (by omega))] at hliteral
        cases hliteral
      rw [if_neg hlarge, Option.bind_none]
  | some value =>
      obtain ⟨hnumber, hwidth⟩ := literal_spec hliteral
      rw [Option.bind_some, shiftLeft_one hwidth, hnumber, shiftBy_one, Int.toNat_natCast]
      simp only [Int.natCast_nonneg, true_and, Nat.cast_lt_ofNat]

end Expr

/-! Text -/

inductive Token where
  | word (text : List Char)
  | lparen
  | rparen
  | plus
  | shiftLeft
deriving DecidableEq

/-- Letters, digits and underscores make names and numbers. -/
def isWordChar (c : Char) : Bool := c.isAlphanum || c == '_'

/-- The token of the characters before a boundary. -/
def Token.ofPending : List Char → List Token
  | [] => []
  | c :: cs => [.word (c :: cs)]

/-- The tokens of a text, of which `pending` are the first characters of a
word; `none` for characters that no token has. -/
def lexFrom (pending : List Char) : List Char → Option (List Token)
  | [] => some (Token.ofPending pending)
  | '(' :: rest =>
      (lexFrom [] rest).map (fun tokens => Token.ofPending pending ++ .lparen :: tokens)
  | ')' :: rest =>
      (lexFrom [] rest).map (fun tokens => Token.ofPending pending ++ .rparen :: tokens)
  | '+' :: rest => (lexFrom [] rest).map (fun tokens => Token.ofPending pending ++ .plus :: tokens)
  | '<' :: '<' :: rest =>
      (lexFrom [] rest).map (fun tokens => Token.ofPending pending ++ .shiftLeft :: tokens)
  | ' ' :: rest => (lexFrom [] rest).map (fun tokens => Token.ofPending pending ++ tokens)
  | c :: rest => if isWordChar c then lexFrom (pending ++ [c]) rest else none

def lex (text : List Char) : Option (List Token) := lexFrom [] text

theorem Token.ofPending_of_ne_nil {text : List Char} (h : text ≠ []) :
    ofPending text = [.word text] := by
  cases text with
  | nil => exact absurd rfl h
  | cons c cs => rfl

section Boundary

variable (pending rest : List Char)

theorem lexFrom_lparen : lexFrom pending ('(' :: rest) =
    (lexFrom [] rest).map (fun tokens => Token.ofPending pending ++ .lparen :: tokens) := by
  rw [lexFrom]

theorem lexFrom_rparen : lexFrom pending (')' :: rest) =
    (lexFrom [] rest).map (fun tokens => Token.ofPending pending ++ .rparen :: tokens) := by
  rw [lexFrom]

theorem lexFrom_plus : lexFrom pending ('+' :: rest) =
    (lexFrom [] rest).map (fun tokens => Token.ofPending pending ++ .plus :: tokens) := by
  rw [lexFrom]

theorem lexFrom_shiftLeft : lexFrom pending ('<' :: '<' :: rest) =
    (lexFrom [] rest).map (fun tokens => Token.ofPending pending ++ .shiftLeft :: tokens) := by
  rw [lexFrom]

theorem lexFrom_space : lexFrom pending (' ' :: rest) =
    (lexFrom [] rest).map (fun tokens => Token.ofPending pending ++ tokens) := by
  rw [lexFrom]

end Boundary

theorem lexFrom_word {pending word : List Char} (hword : ∀ c ∈ word, isWordChar c = true)
    (rest : List Char) : lexFrom pending (word ++ rest) = lexFrom (pending ++ word) rest := by
  induction word generalizing pending with
  | nil => rw [List.nil_append, List.append_nil]
  | cons c cs ih =>
      have hc : isWordChar c = true := hword c List.mem_cons_self
      have hstep : lexFrom pending (c :: (cs ++ rest)) = lexFrom (pending ++ [c]) (cs ++ rest) := by
        have hne : ∀ c', isWordChar c' = false → c ≠ c' := by
          rintro c' hc' rfl
          rw [hc] at hc'
          cases hc'
        rw [lexFrom, if_pos hc]
        · exact hne '(' (by decide)
        · exact hne ')' (by decide)
        · exact hne '+' (by decide)
        · exact fun _ heq => absurd heq (hne '<' (by decide))
        · exact hne ' ' (by decide)
      rw [List.cons_append, hstep, ih (fun c' hmem => hword c' (List.mem_cons_of_mem c hmem)),
        List.append_assoc, List.singleton_append]

/-- The value of a decimal literal; a zero in front would make it octal. -/
def decimal? : List Char → Option Nat
  | ['0'] => some 0
  | '0' :: _ => none
  | text => if text.all Char.isDigit then some (Nat.ofDigitChars 10 text 0) else none

/-- Only the digits of zero start with a zero. -/
theorem head?_toDigits_ne {n : Nat} (hn : 0 < n) : (Nat.toDigits 10 n).head? ≠ some '0' := by
  induction n using Nat.strongRecOn with
  | _ n ih =>
      by_cases hlt : n < 10
      · have hdigit : ∀ m < 10, 0 < m → [m.digitChar].head? ≠ some '0' := by decide
        rw [Nat.toDigits_of_lt_base hlt]
        exact hdigit n hlt hn
      · rw [Nat.toDigits_of_base_le (by decide) (not_lt.mp hlt), List.head?_append,
          Option.or_of_isSome (by simp [Nat.toDigits_ne_nil])]
        exact ih (n / 10) (by omega) (by omega)

theorem isWordChar_of_mem_toDigits {n : Nat} {c : Char} (hc : c ∈ Nat.toDigits 10 n) :
    isWordChar c = true := by
  have hdigit : c.isDigit = true := Nat.isDigit_of_mem_toDigits (by decide) (by decide) hc
  unfold isWordChar Char.isAlphanum
  rw [hdigit, Bool.or_true, Bool.true_or]

theorem decimal?_toDigits (n : Nat) : decimal? (Nat.toDigits 10 n) = some n := by
  have hdigits : (Nat.toDigits 10 n).all Char.isDigit = true := by
    rw [List.all_eq_true]
    intro c hc
    exact Nat.isDigit_of_mem_toDigits (by decide) (by decide) hc
  rcases Nat.eq_zero_or_pos n with rfl | hn
  · rfl
  · have hhead := head?_toDigits_ne hn
    unfold decimal?
    split
    · rename_i heq
      rw [heq] at hhead
      exact absurd rfl hhead
    · rename_i heq
      rw [heq] at hhead
      exact absurd rfl hhead
    · rw [if_pos hdigits, Nat.ofDigitChars_ten_toDigits]

mutual

/-- A shift-expression, and what is left behind it. -/
def parseShift (types : List Char → Option IntType) :
    Nat → List Token → Option (Expr × List Token)
  | 0, _ => none
  | fuel + 1, tokens => do
      let (left, rest) ← parseCast types fuel tokens
      parseShifts types fuel left rest

/-- The shifts by which an expression is continued. -/
def parseShifts (types : List Char → Option IntType) :
    Nat → Expr → List Token → Option (Expr × List Token)
  | 0, _, _ => none
  | fuel + 1, left, .shiftLeft :: rest => do
      let (right, rest) ← parseCast types fuel rest
      parseShifts types fuel (.shiftLeft left right) rest
  | _ + 1, left, rest => some (left, rest)

/-- A cast-expression: parentheses around the name of a type are a cast. -/
def parseCast (types : List Char → Option IntType) :
    Nat → List Token → Option (Expr × List Token)
  | 0, _ => none
  | fuel + 1, .lparen :: .word name :: .rparen :: rest =>
      match types name with
      | some type => do
          let (operand, rest) ← parseCast types fuel rest
          some (.cast type operand, rest)
      | none => (decimal? name).map (fun n => (.literal n, rest))
  | fuel + 1, .lparen :: rest => do
      match ← parseShift types fuel rest with
      | (inner, .rparen :: rest) => some (inner, rest)
      | _ => none
  | fuel + 1, .plus :: rest => do
      let (operand, rest) ← parseCast types fuel rest
      some (.plus operand, rest)
  | _ + 1, .word text :: rest => (decimal? text).map (fun n => (.literal n, rest))
  | _, _ => none

end

/-- The value of a text under the names of types that are in scope. -/
def evalText (types : List Char → Option IntType) (text : List Char) : Option Value := do
  let tokens ← lex text
  match parseShift types (2 * tokens.length + 1) tokens with
  | some (expr, []) => expr.eval
  | _ => none

end CInteger

end WasixLibc
