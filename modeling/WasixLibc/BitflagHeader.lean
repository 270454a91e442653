/-
The constants of bitflags in the generated C headers.

The header of a type is a typedef and one macro for each member; the value of a
macro is that of its text under the C rules for the types in it.
-/
import WasixLibc.CInteger

namespace WasixLibc

namespace BitflagHeader

open CInteger

/-- An identifier, which C reads as one word. -/
structure Id where
  text : List Char
  word : text.all isWordChar = true

inductive IntRepr where
  | u8
  | u16
  | u32
  | u64
deriving Repr, DecidableEq

def IntRepr.bits : IntRepr → Nat
  | .u8 => 8
  | .u16 => 16
  | .u32 => 32
  | .u64 => 64

theorem IntRepr.bits_pos (repr : IntRepr) : 0 < repr.bits := by
  cases repr <;> decide

/-- `intrepr_name` -/
def intreprName : IntRepr → List Char
  | .u8 => "uint8_t".toList
  | .u16 => "uint16_t".toList
  | .u32 => "uint32_t".toList
  | .u64 => "uint64_t".toList

structure RecordMember where
  name : Id
  docs : List (List Char)

/-- A record whose members are bits of an integer, which has room for them. -/
structure RecordDatatype where
  bitflagsRepr : IntRepr
  members : List RecordMember
  fits : members.length ≤ bitflagsRepr.bits

/-- What is pushed to the header, piece by piece. -/
inductive Piece where
  | typedef (type name : List Char)
  | comment (lines : List (List Char))
  | define (name body : List Char)

/-- The characters of a piece. -/
def Piece.text : Piece → List Char
  | typedef type name => "typedef ".toList ++ type ++ " ".toList ++ name ++ ";\n\n".toList
  | comment lines =>
      "/**\n".toList ++ lines.flatMap (fun line => " * ".toList ++ line ++ "\n".toList) ++
        " */\n".toList
  | define name body => "#define ".toList ++ name ++ " ".toList ++ body ++ "\n\n".toList

/-- `__wasi_{}_t` -/
def typeName (name : Id) : List Char := "__wasi_".toList ++ name.text ++ "_t".toList

/-- `((__wasi_{}_t)+(1 << {}))` -/
def constantBody (name : Id) (i : Nat) : List Char :=
  "((".toList ++ typeName name ++ ")+(1 << ".toList ++ Nat.toDigits 10 i ++ "))".toList

section Print

variable (toShoutySnakeCase : Id → List Char)

def printMember (name : Id) (member : RecordMember) (i : Nat) : List Piece :=
  (if member.docs.isEmpty then [] else [.comment member.docs]) ++
    [.define ("__WASI_".toList ++ toShoutySnakeCase name ++ "_".toList ++
      toShoutySnakeCase member.name) (constantBody name i)]

/-- `print_record` for bitflags. -/
def printRecord (name : Id) (s : RecordDatatype) : List Piece :=
  .typedef (intreprName s.bitflagsRepr) (typeName name) ::
    s.members.zipIdx.flatMap (fun (member, i) => printMember toShoutySnakeCase name member i)

end Print

/-! The values of the constants -/

/-- The types of `stdint.h`. -/
def stdint (name : List Char) : Option IntType :=
  [IntRepr.u8, .u16, .u32, .u64].findSome? (fun repr =>
    if intreprName repr = name then some (IntType.unsigned repr.bits repr.bits_pos) else none)

/-- A typedef gives a further name to a type. -/
def declare (types : List Char → Option IntType) : Piece → List Char → Option IntType
  | .typedef type name => fun word => if word = name then types type else types word
  | _ => types

/-- The names of types behind a header. -/
def typesOf (header : List Piece) : List Char → Option IntType := header.foldl declare stdint

/-- The texts of the macros of a header. -/
def constants (header : List Piece) : List (List Char) :=
  header.filterMap (fun piece => match piece with
    | .define _ body => some body
    | _ => none)

/-- The values of the macros of a header, `none` for undefined behaviour. -/
def values (header : List Piece) : List (Option Value) :=
  (constants header).map (evalText (typesOf header))

section Header

variable (toShoutySnakeCase : Id → List Char) (name : Id) (s : RecordDatatype)

/-- The type that the header gives a name to. -/
def RecordDatatype.type (s : RecordDatatype) : IntType :=
  IntType.unsigned s.bitflagsRepr.bits s.bitflagsRepr.bits_pos

theorem declare_printMember (types : List Char → Option IntType) (member : RecordMember) (i : Nat) :
    (printMember toShoutySnakeCase name member i).foldl declare types = types := by
  unfold printMember
  split <;> rfl

theorem declare_printMembers (members : List (RecordMember × Nat))
    (types : List Char → Option IntType) :
    (members.flatMap (fun (member, i) => printMember toShoutySnakeCase name member i)).foldl
      declare types = types := by
  induction members with
  | nil => rfl
  | cons member members ih =>
      rw [List.flatMap_cons, List.foldl_append, declare_printMember, ih]

theorem stdint_intreprName (repr : IntRepr) :
    stdint (intreprName repr) = some (IntType.unsigned repr.bits repr.bits_pos) := by
  cases repr <;> decide

/-- The header gives the type its name. -/
theorem typesOf_printRecord :
    typesOf (printRecord toShoutySnakeCase name s) (typeName name) = some s.type := by
  unfold typesOf printRecord
  rw [List.foldl_cons, declare_printMembers]
  exact (if_pos rfl).trans (stdint_intreprName s.bitflagsRepr)

theorem constants_printMember (member : RecordMember) (i : Nat) :
    constants (printMember toShoutySnakeCase name member i) = [constantBody name i] := by
  unfold printMember
  split <;> rfl

/-- One macro for each member, in order. -/
theorem constants_printRecord :
    constants (printRecord toShoutySnakeCase name s) =
      (List.range s.members.length).map (constantBody name) := by
  have hmembers : ∀ members : List (RecordMember × Nat),
      constants (members.flatMap (fun (member, i) =>
        printMember toShoutySnakeCase name member i)) =
      (members.map Prod.snd).map (constantBody name) := by
    intro members
    induction members with
    | nil => rfl
    | cons member members ih =>
        have hmember := constants_printMember toShoutySnakeCase name member.1 member.2
        unfold constants at *
        rw [List.flatMap_cons, List.filterMap_append, hmember, ih]
        rfl
  have hrange : s.members.zipIdx.map Prod.snd = List.range s.members.length := by
    rw [List.zipIdx_map_snd, List.range_eq_range']
  have hconstants : constants (printRecord toShoutySnakeCase name s) =
      constants (s.members.zipIdx.flatMap (fun (member, i) =>
        printMember toShoutySnakeCase name member i)) := rfl
  rw [hconstants, hmembers, hrange]

theorem isWordChar_of_mem_typeName {c : Char} (hc : c ∈ typeName name) : isWordChar c = true := by
  have hall : (typeName name).all isWordChar = true := by
    unfold typeName
    rw [List.all_append, List.all_append, name.word]
    decide
  exact List.all_eq_true.mp hall c hc

/-- The text of a constant: a cast, a plus sign and a shift. -/
theorem lex_constantBody (i : Nat) :
    lex (constantBody name i) =
      some [.lparen, .lparen, .word (typeName name), .rparen, .plus, .lparen, .word ['1'],
        .shiftLeft, .word (Nat.toDigits 10 i), .rparen, .rparen] := by
  have hbody : constantBody name i = '(' :: '(' :: (typeName name ++ ')' :: '+' :: '(' ::
      (['1'] ++ ' ' :: '<' :: '<' :: ' ' :: (Nat.toDigits 10 i ++ [')', ')']))) := by
    unfold constantBody
    simp only [List.append_assoc]
    rfl
  have hone : ['1'].all isWordChar = true := by decide
  have htype : Token.ofPending (typeName name) = [.word (typeName name)] :=
    Token.ofPending_of_ne_nil (List.cons_ne_nil _ _)
  have hdigits : Token.ofPending (Nat.toDigits 10 i) = [.word (Nat.toDigits 10 i)] :=
    Token.ofPending_of_ne_nil Nat.toDigits_ne_nil
  unfold lex
  rw [hbody, lexFrom_lparen, lexFrom_lparen,
    lexFrom_word (fun _ hc => isWordChar_of_mem_typeName name hc), lexFrom_rparen, lexFrom_plus,
    lexFrom_lparen, lexFrom_word (List.all_eq_true.mp hone), lexFrom_space, lexFrom_shiftLeft,
    lexFrom_space,
    lexFrom_word (fun _ hc => isWordChar_of_mem_toDigits hc), lexFrom_rparen, lexFrom_rparen,
    List.nil_append, List.nil_append, List.nil_append, htype, hdigits]
  rfl

theorem parseShift_constant {types : List Char → Option IntType} {type : IntType}
    {word : List Char} (hword : types word = some type) (i : Nat) :
    parseShift types 23 [.lparen, .lparen, .word word, .rparen, .plus, .lparen, .word ['1'],
        .shiftLeft, .word (Nat.toDigits 10 i), .rparen, .rparen] =
      some (.cast type (.plus (.shiftLeft (.literal 1) (.literal i))), []) := by
  have hone : decimal? ['1'] = some 1 := decimal?_toDigits 1
  simp [parseShift, parseCast, parseShifts, hword, hone, decimal?_toDigits]

theorem eval_constant (type : IntType) {i : Nat} (hi : type.InRange (2 ^ i)) :
    (Expr.cast type (.plus (.shiftLeft (.literal 1) (.literal i)))).eval =
      if i < 31 then Value.ofNumber? type (2 ^ i) else none := by
  rw [Expr.eval_cast, Expr.eval_plus, Expr.eval_shiftLeft_one]
  split
  · rename_i hlt
    rw [Value.ofNumber?_of_inRange (Expr.two_pow_inRange_int hlt), Value.ofNumber?_of_inRange hi,
      Option.map_some, Option.map_some, Value.promote_of_wide (le_refl 32)]
    exact congrArg some (Value.convert_of_inRange hi)
  · rfl

/-- A member has its bit, if there is a member less than 31 places before it. -/
theorem evalText_constantBody {types : List Char → Option IntType} {type : IntType}
    (hname : types (typeName name) = some type) {i : Nat} (hi : type.InRange (2 ^ i)) :
    evalText types (constantBody name i) =
      if i < 31 then Value.ofNumber? type (2 ^ i) else none := by
  unfold evalText
  rw [lex_constantBody, Option.bind_eq_bind, Option.bind_some]
  have hparse := parseShift_constant hname i
  simp only [List.length_cons, List.length_nil] at hparse ⊢
  rw [hparse]
  exact eval_constant type hi

theorem RecordDatatype.two_pow_inRange {i : Nat} (hi : i < s.members.length) :
    s.type.InRange (2 ^ i) := by
  apply IntType.two_pow_inRange
  exact Nat.lt_of_lt_of_le hi s.fits

theorem values_printRecord {i : Nat} (hi : i < s.members.length) :
    (values (printRecord toShoutySnakeCase name s))[i]? =
      some (if i < 31 then Value.ofNumber? s.type (2 ^ i) else none) := by
  have heval := evalText_constantBody name (typesOf_printRecord toShoutySnakeCase name s)
    (s.two_pow_inRange hi)
  unfold values
  rw [constants_printRecord, List.getElem?_map, List.getElem?_map, List.getElem?_range hi,
    Option.map_some, Option.map_some, heval]

/-- Each constant has a value, of the type that is named, which is its bit. -/
def PowersOfTwo : Prop :=
  ∀ i < s.members.length, ∃ value, (values (printRecord toShoutySnakeCase name s))[i]? =
    some (some value) ∧ value.type = s.type ∧ value.number = 2 ^ i

/-- No constant is zero, and no two have a bit in common. -/
def DisjointBits : Prop :=
  ∀ i < s.members.length, ∀ j < s.members.length, i ≠ j → ∃ value value',
    (values (printRecord toShoutySnakeCase name s))[i]? = some (some value) ∧
    (values (printRecord toShoutySnakeCase name s))[j]? = some (some value') ∧
    value.number ≠ 0 ∧ value.number.toNat &&& value'.number.toNat = 0

theorem two_pow_and_two_pow {i j : Nat} (hne : i ≠ j) : 2 ^ i &&& 2 ^ j = 0 := by
  apply Nat.eq_of_testBit_eq
  intro k
  rw [Nat.testBit_and, Nat.testBit_two_pow, Nat.testBit_two_pow, Nat.zero_testBit,
    Bool.and_eq_false_iff, decide_eq_false_iff_not, decide_eq_false_iff_not]
  omega

variable {toShoutySnakeCase name s}

theorem disjointBits_of_powersOfTwo (h : PowersOfTwo toShoutySnakeCase name s) :
    DisjointBits toShoutySnakeCase name s := by
  intro i hi j hj hne
  obtain ⟨value, hvalue, -, hnumber⟩ := h i hi
  obtain ⟨value', hvalue', -, hnumber'⟩ := h j hj
  refine ⟨value, value', hvalue, hvalue', ?_, ?_⟩
  · rw [hnumber]
    exact pow_ne_zero i (by decide)
  · have hcast : ∀ k : Nat, ((2 : Int) ^ k).toNat = 2 ^ k := fun k => by
      rw [Int.toNat_pow_of_nonneg (by decide)]
      rfl
    rw [hnumber, hnumber', hcast, hcast, two_pow_and_two_pow hne]

variable (toShoutySnakeCase name s)

/-- The constants of a type are its bits exactly if the type has at most 31
members: one is shifted as an `int`, whatever the type is. -/
theorem constants_iff :
    PowersOfTwo toShoutySnakeCase name s ∧ DisjointBits toShoutySnakeCase name s ↔
      s.members.length ≤ 31 := by
  constructor
  · rintro ⟨hpowers, -⟩
    by_contra hmany
    obtain ⟨value, hvalue, -⟩ := hpowers 31 (by omega)
    rw [values_printRecord toShoutySnakeCase name s (by omega)] at hvalue
    cases hvalue
  · intro hfew
    have hpowers : PowersOfTwo toShoutySnakeCase name s := by
      intro i hi
      refine ⟨⟨s.type, 2 ^ i, s.two_pow_inRange hi⟩, ?_, rfl, rfl⟩
      rw [values_printRecord toShoutySnakeCase name s hi, if_pos (by omega),
        Value.ofNumber?_of_inRange]
    exact ⟨hpowers, disjointBits_of_powersOfTwo hpowers⟩

end Header

namespace RightsWitness

def rightsNames : List String :=
  ["fd_datasync", "fd_read", "fd_seek", "fd_fdstat_set_flags", "fd_sync", "fd_tell",
    "fd_write", "fd_advise", "fd_allocate", "path_create_directory", "path_create_file",
    "path_link_source", "path_link_target", "path_open", "fd_readdir", "path_readlink",
    "path_rename_source", "path_rename_target", "path_filestat_get", "path_filestat_set_size",
    "path_filestat_set_times", "fd_filestat_get", "fd_filestat_set_size",
    "fd_filestat_set_times", "path_symlink", "path_remove_directory", "path_unlink_file",
    "poll_fd_readwrite", "sock_shutdown", "sock_accept", "sock_connect", "sock_listen",
    "sock_bind", "sock_recv", "sock_send", "sock_addr_local", "sock_addr_remote",
    "sock_recv_from", "sock_send_to"]

theorem rightsNames_word :
    rightsNames.all (fun name => name.toList.all isWordChar) = true := by
  decide

/-- The rights of a descriptor, which have 64 bits. -/
def rights : RecordDatatype where
  bitflagsRepr := .u64
  members := rightsNames.attach.map (fun name =>
    ⟨⟨name.1.toList, List.all_eq_true.mp rightsNames_word name.1 name.2⟩, []⟩)
  fits := by decide

def rightsId : Id := ⟨"rights".toList, by decide⟩

/-- The 32nd right has no value. -/
theorem rights_undefined :
    ¬ ∀ (toShoutySnakeCase : Id → List Char) (name : Id) (s : RecordDatatype),
      PowersOfTwo toShoutySnakeCase name s ∧ DisjointBits toShoutySnakeCase name s := by
  intro h
  obtain ⟨value, hvalue, -⟩ := (h Id.text rightsId rights).1 31 (by decide)
  rw [values_printRecord Id.text rightsId rights (by decide)] at hvalue
  cases hvalue

end RightsWitness

end BitflagHeader

end WasixLibc
