/-
The declarations of types in the generated C headers.

A type is printed with the documentation of its members; the text of a hidden
type stands between the opener and the terminator of a comment.
-/
import WasixLibc.BitflagHeader
import WasixLibc.CComment

namespace WasixLibc

namespace DatatypeHeader

open BitflagHeader (Id IntRepr intreprName typeName printMember Piece)

inductive BuiltinType where
  | char
  | u8 (langCChar : Bool)
  | u16
  | u32 (langPtrSize : Bool)
  | u64 (langPtrSize : Bool)
  | usize
  | s8
  | s16
  | s32
  | s64
  | f32
  | f64
deriving Repr, DecidableEq

/-- A reference to a type: by name, with what the name stands for, or to a type
of no name.  Of a record, a variant or a handle the name is enough. -/
inductive TypeRef where
  | name (name : Id) (dest : TypeRef)
  | builtin (b : BuiltinType)
  | list (element : TypeRef)
  | pointer (target : TypeRef)
  | constPointer (target : TypeRef)
  | datatype

/-- `type_`: names are resolved. -/
def TypeRef.type : TypeRef → TypeRef
  | name _ dest => dest.type
  | tref => tref

structure RecordMember extends BitflagHeader.RecordMember where
  tref : TypeRef

structure RecordDatatype where
  bitflagsRepr : Option IntRepr
  members : List RecordMember

structure Case where
  name : Id
  tref : Option TypeRef
  docs : List (List Char)

structure Variant where
  tagRepr : IntRepr
  cases : List Case

inductive Datatype where
  | record (s : RecordDatatype)
  | variant (v : Variant)
  | handle
  | aliasOf (dest : TypeRef)

structure NamedType where
  name : Id
  docs : List (List Char)
  hidden : Bool
  datatype : Datatype

/-- What the interface description has of layouts, as sizes and alignments, and
the offsets of members. -/
structure Layouts where
  tref : TypeRef → Nat × Nat
  repr : IntRepr → Nat × Nat
  record : RecordDatatype → Nat × Nat
  variant : Variant → Nat × Nat
  handle : Nat × Nat
  memberLayout : RecordDatatype → List (RecordMember × Nat)

/-- `builtin_type_name`, or `none` where it panics. -/
def builtinTypeName : BuiltinType → Option (List Char)
  | .u8 true => none
  | .u8 false => some "uint8_t".toList
  | .u16 => some "uint16_t".toList
  | .u64 true => some "size_t".toList
  | .u64 false => some "uint64_t".toList
  | .u32 true => some "size_t".toList
  | .u32 false => some "uint32_t".toList
  | .usize => some "__wasi_uint_t".toList
  | .s8 => some "int8_t".toList
  | .s16 => some "int16_t".toList
  | .s32 => some "int32_t".toList
  | .s64 => some "int64_t".toList
  | .f32 => some "float".toList
  | .f64 => some "double".toList
  | .char => some "char32_t".toList

/-- Strings and arrays have no name. -/
def unnamed (tref : TypeRef) : Bool :=
  match tref.type with
  | .builtin (.u8 true) => true
  | .list _ => true
  | _ => false

mutual

/-- `typeref_name` -/
def typerefName (tref : TypeRef) : Option (List Char) :=
  if unnamed tref then none
  else
    match tref with
    | .name name dest => namedtypeName name dest
    | .builtin b => builtinTypeName b
    | .pointer target => (typerefName target).map (fun t => t ++ " *".toList)
    | .constPointer target =>
        (typerefName target).map (fun t => "const ".toList ++ t ++ " *".toList)
    | .list _ => none
    | .datatype => none

/-- `namedtype_name`, of what the name stands for. -/
def namedtypeName (name : Id) : TypeRef → Option (List Char)
  | .name _ dest => namedtypeName name dest
  | .pointer target => (typerefName target).map (fun t => t ++ " *".toList)
  | .constPointer target =>
      (typerefName target).map (fun t => "const ".toList ++ t ++ " *".toList)
  | .list _ => none
  | _ => some (typeName name)

end

/-- `intrepr_const` -/
def intreprConst : IntRepr → List Char
  | .u8 => "UINT8_C".toList
  | .u16 => "UINT16_C".toList
  | .u32 => "UINT32_C".toList
  | .u64 => "UINT64_C".toList

/-- A documentation comment, with what stands before its opener and before each
line, and its last line. -/
def docComment (indent star close : String) (docs : List (List Char)) : List Char :=
  if docs.isEmpty then []
  else
    indent.toList ++ "/**\n".toList ++
      docs.flatMap (fun line => star.toList ++ line ++ "\n".toList) ++ close.toList

/-- The two assertions about a type. -/
def staticAsserts (name : Id) (sizeAlign : Nat × Nat) : List Char :=
  "_Static_assert(sizeof(".toList ++ typeName name ++ ") == ".toList ++
    Nat.toDigits 10 sizeAlign.1 ++ ", \"witx calculated size\");\n".toList ++
  ("_Static_assert(_Alignof(".toList ++ typeName name ++ ") == ".toList ++
    Nat.toDigits 10 sizeAlign.2 ++ ", \"witx calculated align\");\n".toList)

/-- The type that an alias stands for; `size` is a special case. -/
def aliasType (name : Id) (dest : TypeRef) : Option (List Char) :=
  if name.text = "size".toList then some "uint32_t".toList else typerefName dest

section Print

-- `to_shouty_snake_case` makes an identifier of an identifier.
variable (layouts : Layouts) (toShoutySnakeCase : Id → Id)

/-- `print_alias` -/
def printAlias (name : Id) (dest : TypeRef) : Option (List Char) :=
  match dest.type with
  | .list _ => some []
  | _ => do
      let type ← aliasType name dest
      return "typedef ".toList ++ type ++ " ".toList ++ typeName name ++ ";\n".toList ++
        "\n".toList ++ staticAsserts name (layouts.tref dest) ++ "\n".toList

/-- A case of `print_enum`. -/
def printEnumCase (name : Id) (v : Variant) (case : Case) (index : Nat) : List Char :=
  docComment "" " * " " */\n" case.docs ++
    ("#define __WASI_".toList ++ (toShoutySnakeCase name).text ++ "_".toList ++
      (toShoutySnakeCase case.name).text ++ " (".toList ++ intreprConst v.tagRepr ++
      "(".toList ++ Nat.toDigits 10 index ++ "))\n".toList ++ "\n".toList)

/-- `print_enum` -/
def printEnum (name : Id) (v : Variant) : List Char :=
  "typedef ".toList ++ intreprName v.tagRepr ++ " ".toList ++ typeName name ++ ";\n".toList ++
    "\n".toList ++
    v.cases.zipIdx.flatMap (fun entry => printEnumCase toShoutySnakeCase name v entry.1 entry.2) ++
    staticAsserts name (layouts.repr v.tagRepr) ++ "\n".toList

/-- A field of a `struct` or a `union`, after its documentation. -/
def printField (star close : String) (name : Id) (tref : TypeRef) (docs : List (List Char)) :
    Option (List Char) := do
  let type ← typerefName tref
  return docComment "    " star close docs ++
    ("    ".toList ++ type ++ " ".toList ++ name.text ++ ";\n".toList)

/-- The fields of a record. -/
def printMembers : List RecordMember → Option (List Char)
  | [] => some []
  | member :: members => do
      let field ← printField "     * " "     */\n" member.name member.tref member.docs
      let fields ← printMembers members
      return field ++ "\n".toList ++ fields

/-- A bit of `print_record`: its documentation and its macro. -/
def memberText (name : Id) (member : RecordMember) (i : Nat) : List Char :=
  (printMember (fun id => (toShoutySnakeCase id).text) name member.toRecordMember i).flatMap
    Piece.text

/-- The assertion about a member. -/
def offsetAssert (name : Id) (member : RecordMember) (offset : Nat) : List Char :=
  "_Static_assert(offsetof(".toList ++ typeName name ++ ", ".toList ++ member.name.text ++
    ") == ".toList ++ Nat.toDigits 10 offset ++ ", \"witx calculated offset\");\n".toList

/-- `print_record` -/
def printRecord (name : Id) (s : RecordDatatype) : Option (List Char) :=
  match s.bitflagsRepr with
  | some repr =>
      some ((Piece.typedef (intreprName repr) (typeName name)).text ++
        s.members.zipIdx.flatMap (fun entry => memberText toShoutySnakeCase name entry.1 entry.2))
  | none => do
      let fields ← printMembers s.members
      return "typedef struct ".toList ++ typeName name ++ [' ', '{', '\n'] ++ fields ++
        (['}', ' '] ++ typeName name ++ ";\n".toList) ++ "\n".toList ++
        staticAsserts name (layouts.record s) ++
        (layouts.memberLayout s).flatMap (fun layout => offsetAssert name layout.1 layout.2) ++
        "\n".toList

/-- The field of the union of a variant, for a case that has a type. -/
def printCase (case : Case) : Option (List Char) :=
  match case.tref with
  | none => some []
  | some tref => printField "    * " "    */\n" case.name tref case.docs

def printCases : List Case → Option (List Char)
  | [] => some []
  | case :: cases => do
      let field ← printCase case
      let fields ← printCases cases
      return field ++ fields

/-- `__wasi_{}_u_t` -/
def unionName (name : Id) : List Char := "__wasi_".toList ++ name.text ++ "_u_t".toList

/-- `print_variant` -/
def printVariant (name : Id) (v : Variant) : Option (List Char) :=
  if v.cases.all (fun case => case.tref.isNone) then
    some (printEnum layouts toShoutySnakeCase name v)
  else do
    let fields ← printCases v.cases
    return "typedef union ".toList ++ unionName name ++ [' ', '{', '\n'] ++ fields ++
      (['}', ' '] ++ unionName name ++ ";\n".toList) ++
      ("typedef struct ".toList ++ typeName name ++ [' ', '{', '\n']) ++
      ("    ".toList ++ intreprName v.tagRepr ++ " tag;\n".toList) ++
      ("    ".toList ++ unionName name ++ " u;\n".toList) ++
      (['}', ' '] ++ typeName name ++ ";\n".toList) ++ "\n".toList ++
      staticAsserts name (layouts.variant v) ++ "\n".toList

/-- `print_handle` -/
def printHandle (name : Id) : List Char :=
  "typedef int ".toList ++ typeName name ++ ";\n\n".toList ++ staticAsserts name layouts.handle ++
    "\n".toList

/-- The declarations of a type. -/
def printDeclarations (name : Id) : Datatype → Option (List Char)
  | .record s => printRecord layouts toShoutySnakeCase name s
  | .variant v => printVariant layouts toShoutySnakeCase name v
  | .handle => some (printHandle layouts name)
  | .aliasOf dest => printAlias layouts name dest

/-- `print_datatype`: what is pushed to the header. -/
def printDatatype (nt : NamedType) : Option (List Char) := do
  let declarations ← printDeclarations layouts toShoutySnakeCase nt.name nt.datatype
  return docComment "" " * " " */\n" nt.docs ++
    (if nt.hidden then "/**\n".toList ++ "*** Hidden type\n".toList else []) ++ declarations ++
    (if nt.hidden then " */\n".toList else [])

end Print

end DatatypeHeader

end WasixLibc
