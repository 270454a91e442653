/-
Whether the text of a hidden type is one comment.

No declaration has a slash in it, so the only terminators are those of the
documentation that is printed with the members.
-/
import WasixLibc.DatatypeHeader

namespace WasixLibc

namespace DatatypeHeader

open BitflagHeader (Id IntRepr intreprName typeName printMember Piece)
open CComment (IsComment isComment_of_no_slash not_isComment_of_terminator)

/-- The documentation of the case is printed. -/
def Variant.Prints (v : Variant) (case : Case) : Prop :=
  case.tref ≠ none ∨ ∀ other ∈ v.cases, other.tref = none

/-- No documentation is printed with the declarations. -/
def Datatype.Bare : Datatype → Prop
  | .record s => ∀ member ∈ s.members, member.docs = []
  | .variant v => ∀ case ∈ v.cases, v.Prints case → case.docs = []
  | .handle => True
  | .aliasOf _ => True

/-- What `print_datatype` pushes from the marker of a hidden type on. -/
def fromMarker (nt : NamedType) (text : List Char) : List Char :=
  text.drop (docComment "" " * " " */\n" nt.docs).length

/-! Names and numbers -/

theorem id_no_slash (id : Id) : '/' ∉ id.text := by
  intro h
  exact absurd (List.all_eq_true.mp id.word '/' h) (by decide)

theorem toDigits_no_slash (n : Nat) : '/' ∉ Nat.toDigits 10 n := by
  intro h
  exact absurd (CInteger.isWordChar_of_mem_toDigits h) (by decide)

theorem typeName_no_slash (name : Id) : '/' ∉ typeName name := by
  intro h
  exact absurd (BitflagHeader.isWordChar_of_mem_typeName name h) (by decide)

theorem unionName_no_slash (name : Id) : '/' ∉ unionName name := by
  unfold unionName
  simp +decide only [List.mem_append, id_no_slash, or_false, not_false_eq_true]

theorem intreprName_no_slash (repr : IntRepr) : '/' ∉ intreprName repr := by
  cases repr <;> decide

theorem intreprConst_no_slash (repr : IntRepr) : '/' ∉ intreprConst repr := by
  cases repr <;> decide

theorem staticAsserts_no_slash (name : Id) (sizeAlign : Nat × Nat) :
    '/' ∉ staticAsserts name sizeAlign := by
  unfold staticAsserts
  simp +decide only [List.mem_append, typeName_no_slash, toDigits_no_slash, or_false,
    not_false_eq_true]

theorem builtinTypeName_no_slash {b : BuiltinType} {text : List Char}
    (h : builtinTypeName b = some text) : '/' ∉ text := by
  cases b with
  | u8 langCChar =>
      cases langCChar <;> cases h
      decide
  | u32 langPtrSize => cases langPtrSize <;> cases h <;> decide
  | u64 langPtrSize => cases langPtrSize <;> cases h <;> decide
  | _ => cases h; decide

theorem pointer_no_slash {target : Option (List Char)} {text : List Char}
    (htarget : ∀ t, target = some t → '/' ∉ t)
    (h : target.map (fun t => t ++ " *".toList) = some text) : '/' ∉ text := by
  obtain ⟨t, ht, rfl⟩ := Option.map_eq_some_iff.mp h
  simp +decide only [List.mem_append, htarget t ht, or_false, not_false_eq_true]

theorem constPointer_no_slash {target : Option (List Char)} {text : List Char}
    (htarget : ∀ t, target = some t → '/' ∉ t)
    (h : target.map (fun t => "const ".toList ++ t ++ " *".toList) = some text) : '/' ∉ text := by
  obtain ⟨t, ht, rfl⟩ := Option.map_eq_some_iff.mp h
  simp +decide only [List.mem_append, htarget t ht, or_false, not_false_eq_true]

/-- The induction is on the reference; a name is spelled from what it stands for. -/
theorem names_no_slash (tref : TypeRef) :
    (∀ text, typerefName tref = some text → '/' ∉ text) ∧
      ∀ name text, namedtypeName name tref = some text → '/' ∉ text := by
  induction tref with
  | name name dest ih =>
      refine ⟨fun text h => ?_, fun name' text h => ?_⟩
      · rw [typerefName] at h
        split at h
        · cases h
        · exact ih.2 name text h
      · rw [namedtypeName] at h
        exact ih.2 name' text h
  | builtin b =>
      refine ⟨fun text h => ?_, fun name text h => ?_⟩
      · rw [typerefName] at h
        split at h
        · cases h
        · exact builtinTypeName_no_slash h
      · cases h
        exact typeName_no_slash name
  | list element _ =>
      refine ⟨fun text h => ?_, fun name text h => ?_⟩
      · cases h
      · cases h
  | pointer target ih =>
      refine ⟨fun text h => ?_, fun name text h => ?_⟩
      · rw [typerefName] at h
        split at h
        · cases h
        · exact pointer_no_slash ih.1 h
      · rw [namedtypeName] at h
        exact pointer_no_slash ih.1 h
  | constPointer target ih =>
      refine ⟨fun text h => ?_, fun name text h => ?_⟩
      · rw [typerefName] at h
        split at h
        · cases h
        · exact constPointer_no_slash ih.1 h
      · rw [namedtypeName] at h
        exact constPointer_no_slash ih.1 h
  | datatype =>
      refine ⟨fun text h => ?_, fun name text h => ?_⟩
      · cases h
      · cases h
        exact typeName_no_slash name

/-! Documentation -/

theorem docComment_nil (indent star close : String) : docComment indent star close [] = [] := rfl

theorem docComment_terminates {indent star close : String} (hclose : ['*', '/'] <:+: close.toList)
    {docs : List (List Char)} (hdocs : docs ≠ []) :
    ['*', '/'] <:+: docComment indent star close docs := by
  unfold docComment
  rw [if_neg (by rwa [List.isEmpty_iff])]
  exact hclose.trans (List.suffix_append _ _).isInfix

theorem infix_append_left {pattern left : List Char} (right : List Char)
    (h : pattern <:+: left) : pattern <:+: left ++ right :=
  h.trans (List.prefix_append left right).isInfix

theorem infix_append_right {pattern right : List Char} (left : List Char)
    (h : pattern <:+: right) : pattern <:+: left ++ right :=
  h.trans (List.suffix_append left right).isInfix

theorem infix_flatMap {α : Type} {pattern : List Char} {xs : List α} {f : α → List Char} {x : α}
    (hx : x ∈ xs) (h : pattern <:+: f x) : pattern <:+: xs.flatMap f := by
  induction xs with
  | nil => cases hx
  | cons head xs ih =>
      rw [List.flatMap_cons]
      rcases List.mem_cons.mp hx with rfl | hx
      · exact infix_append_left _ h
      · exact infix_append_right _ (ih hx)

theorem fst_mem_of_mem_zipIdx {α : Type} {xs : List α} {pair : α × Nat} (h : pair ∈ xs.zipIdx) :
    pair.1 ∈ xs := by
  have hmem := List.mem_map_of_mem (f := Prod.fst) h
  rwa [List.zipIdx_map_fst] at hmem

theorem exists_mem_zipIdx {α : Type} {xs : List α} {x : α} (h : x ∈ xs) :
    ∃ i, (x, i) ∈ xs.zipIdx := by
  rw [← List.zipIdx_map_fst 0 xs] at h
  obtain ⟨⟨y, i⟩, hmem, rfl⟩ := List.mem_map.mp h
  exact ⟨i, hmem⟩

/-- The last lines of the three kinds of documentation. -/
theorem close_terminates : ['*', '/'] <:+: " */\n".toList ∧ ['*', '/'] <:+: "     */\n".toList ∧
    ['*', '/'] <:+: "    */\n".toList :=
  ⟨⟨" ".toList, ['\n'], rfl⟩, ⟨"     ".toList, ['\n'], rfl⟩, ⟨"    ".toList, ['\n'], rfl⟩⟩

/-! Fields -/

section Fields

variable {star close : String} {name : Id} {tref : TypeRef} {docs : List (List Char)}
  {text : List Char}

theorem printField_eq (h : printField star close name tref docs = some text) :
    ∃ type, typerefName tref = some type ∧
      text = docComment "    " star close docs ++
        ("    ".toList ++ type ++ " ".toList ++ name.text ++ ";\n".toList) := by
  obtain ⟨type, htype, htext⟩ := Option.bind_eq_some_iff.mp h
  exact ⟨type, htype, (Option.some.inj htext).symm⟩

theorem printField_no_slash (h : printField star close name tref [] = some text) :
    '/' ∉ text := by
  obtain ⟨type, htype, rfl⟩ := printField_eq h
  have htype := (names_no_slash tref).1 type htype
  simp +decide only [docComment_nil, List.nil_append, List.mem_append, htype, id_no_slash, or_false,
    not_false_eq_true]

theorem printField_terminates (hclose : ['*', '/'] <:+: close.toList) (hdocs : docs ≠ [])
    (h : printField star close name tref docs = some text) : ['*', '/'] <:+: text := by
  obtain ⟨type, _, rfl⟩ := printField_eq h
  exact infix_append_left _ (docComment_terminates hclose hdocs)

theorem printMembers_cons {member : RecordMember} {members : List RecordMember}
    (h : printMembers (member :: members) = some text) :
    ∃ field fields,
      printField "     * " "     */\n" member.name member.tref member.docs = some field ∧
      printMembers members = some fields ∧ text = field ++ "\n".toList ++ fields := by
  obtain ⟨field, hfield, h⟩ := Option.bind_eq_some_iff.mp h
  obtain ⟨fields, hfields, htext⟩ := Option.bind_eq_some_iff.mp h
  exact ⟨field, fields, hfield, hfields, (Option.some.inj htext).symm⟩

theorem printMembers_no_slash {members : List RecordMember}
    (hdocs : ∀ member ∈ members, member.docs = []) (h : printMembers members = some text) :
    '/' ∉ text := by
  induction members generalizing text with
  | nil =>
      cases h
      exact List.not_mem_nil
  | cons member members ih =>
      obtain ⟨field, fields, hfield, hfields, rfl⟩ := printMembers_cons h
      rw [hdocs member List.mem_cons_self] at hfield
      have hfield := printField_no_slash hfield
      have hfields := ih (fun other hother => hdocs other (List.mem_cons_of_mem _ hother)) hfields
      simp +decide only [List.mem_append, hfield, hfields, or_false, not_false_eq_true]

theorem printMembers_terminates {members : List RecordMember} {member : RecordMember}
    (hmember : member ∈ members) (hdocs : member.docs ≠ []) (h : printMembers members = some text) :
    ['*', '/'] <:+: text := by
  induction members generalizing text with
  | nil => cases hmember
  | cons head members ih =>
      obtain ⟨field, fields, hfield, hfields, rfl⟩ := printMembers_cons h
      rcases List.mem_cons.mp hmember with rfl | hmember
      · exact infix_append_left _
          (infix_append_left _ (printField_terminates close_terminates.2.1 hdocs hfield))
      · exact infix_append_right _ (ih hmember hfields)

theorem printCases_cons {case : Case} {cases : List Case}
    (h : printCases (case :: cases) = some text) :
    ∃ field fields, printCase case = some field ∧ printCases cases = some fields ∧
      text = field ++ fields := by
  obtain ⟨field, hfield, h⟩ := Option.bind_eq_some_iff.mp h
  obtain ⟨fields, hfields, htext⟩ := Option.bind_eq_some_iff.mp h
  exact ⟨field, fields, hfield, hfields, (Option.some.inj htext).symm⟩

theorem printCases_no_slash {cases : List Case}
    (hdocs : ∀ case ∈ cases, case.tref ≠ none → case.docs = []) (h : printCases cases = some text) :
    '/' ∉ text := by
  induction cases generalizing text with
  | nil =>
      cases h
      exact List.not_mem_nil
  | cons case cases ih =>
      obtain ⟨field, fields, hfield, hfields, rfl⟩ := printCases_cons h
      have hfields := ih (fun other hother => hdocs other (List.mem_cons_of_mem _ hother)) hfields
      have hfield : '/' ∉ field := by
        unfold printCase at hfield
        cases htref : case.tref with
        | none =>
            rw [htref] at hfield
            cases hfield
            exact List.not_mem_nil
        | some tref =>
            have hnil := hdocs case List.mem_cons_self (by rw [htref]; exact Option.some_ne_none _)
            rw [htref, hnil] at hfield
            exact printField_no_slash hfield
      simp only [List.mem_append, hfield, hfields, or_false, not_false_eq_true]

theorem printCases_terminates {cases : List Case} {case : Case} (hcase : case ∈ cases)
    (htref : case.tref ≠ none) (hdocs : case.docs ≠ []) (h : printCases cases = some text) :
    ['*', '/'] <:+: text := by
  induction cases generalizing text with
  | nil => cases hcase
  | cons head cases ih =>
      obtain ⟨field, fields, hfield, hfields, rfl⟩ := printCases_cons h
      rcases List.mem_cons.mp hcase with rfl | hcase
      · obtain ⟨tref, htref⟩ := Option.ne_none_iff_exists'.mp htref
        unfold printCase at hfield
        rw [htref] at hfield
        exact infix_append_left _ (printField_terminates close_terminates.2.2 hdocs hfield)
      · exact infix_append_right _ (ih hcase hfields)

end Fields

/-! Declarations -/

section Declarations

variable {layouts : Layouts} {toShoutySnakeCase : Id → Id} {name : Id} {text : List Char}

theorem printAlias_no_slash {dest : TypeRef} (h : printAlias layouts name dest = some text) :
    '/' ∉ text := by
  unfold printAlias at h
  split at h
  · cases h
    exact List.not_mem_nil
  · obtain ⟨type, htype, htext⟩ := Option.bind_eq_some_iff.mp h
    have hslash : '/' ∉ type := by
      unfold aliasType at htype
      split at htype
      · cases htype
        decide
      · exact (names_no_slash dest).1 type htype
    cases htext
    simp +decide only [List.mem_append, hslash, typeName_no_slash, staticAsserts_no_slash, or_false,
      not_false_eq_true]

theorem printHandle_no_slash : '/' ∉ printHandle layouts name := by
  unfold printHandle
  simp +decide only [List.mem_append, typeName_no_slash, staticAsserts_no_slash, or_false,
    not_false_eq_true]

theorem printEnum_no_slash {v : Variant} (hdocs : ∀ case ∈ v.cases, case.docs = []) :
    '/' ∉ printEnum layouts toShoutySnakeCase name v := by
  have hcases : '/' ∉ v.cases.zipIdx.flatMap (fun entry =>
      printEnumCase toShoutySnakeCase name v entry.1 entry.2) := by
    intro h
    obtain ⟨entry, hmem, hslash⟩ := List.mem_flatMap.mp h
    unfold printEnumCase at hslash
    rw [hdocs entry.1 (fst_mem_of_mem_zipIdx hmem), docComment_nil] at hslash
    simp +decide only [List.mem_append, id_no_slash, intreprConst_no_slash, toDigits_no_slash,
      or_false] at hslash
  unfold printEnum
  simp +decide only [List.mem_append, intreprName_no_slash, typeName_no_slash, hcases,
    staticAsserts_no_slash, or_false, not_false_eq_true]

theorem printEnum_terminates {v : Variant} {case : Case} (hcase : case ∈ v.cases)
    (hdocs : case.docs ≠ []) : ['*', '/'] <:+: printEnum layouts toShoutySnakeCase name v := by
  obtain ⟨index, hmem⟩ := exists_mem_zipIdx hcase
  have hprinted : ['*', '/'] <:+: printEnumCase toShoutySnakeCase name v case index :=
    infix_append_left _ (docComment_terminates close_terminates.1 hdocs)
  have hcases := infix_flatMap (f := fun entry =>
    printEnumCase toShoutySnakeCase name v entry.1 entry.2) hmem hprinted
  unfold printEnum
  exact infix_append_left _ (infix_append_left _ (infix_append_right _ hcases))

theorem printVariant_no_slash {v : Variant} (hbare : (Datatype.variant v).Bare)
    (h : printVariant layouts toShoutySnakeCase name v = some text) : '/' ∉ text := by
  unfold printVariant at h
  split at h
  · rename_i hall
    have hnone : ∀ case ∈ v.cases, case.tref = none := fun case hcase =>
      Option.isNone_iff_eq_none.mp (List.all_eq_true.mp hall case hcase)
    cases h
    exact printEnum_no_slash (fun case hcase => hbare case hcase (Or.inr hnone))
  · obtain ⟨fields, hfields, htext⟩ := Option.bind_eq_some_iff.mp h
    have hfields := printCases_no_slash
      (fun case hcase htref => hbare case hcase (Or.inl htref)) hfields
    cases htext
    simp +decide only [List.mem_append, hfields, intreprName_no_slash, typeName_no_slash,
      unionName_no_slash, staticAsserts_no_slash, or_false, not_false_eq_true]

theorem printVariant_terminates {v : Variant} {case : Case} (hcase : case ∈ v.cases)
    (hprints : v.Prints case) (hdocs : case.docs ≠ [])
    (h : printVariant layouts toShoutySnakeCase name v = some text) : ['*', '/'] <:+: text := by
  unfold printVariant at h
  split at h
  · cases h
    exact printEnum_terminates hcase hdocs
  · rename_i hsome
    obtain ⟨fields, hfields, htext⟩ := Option.bind_eq_some_iff.mp h
    have htref : case.tref ≠ none := by
      rcases hprints with htref | hnone
      · exact htref
      · refine absurd (List.all_eq_true.mpr fun other hother => ?_) hsome
        exact Option.isNone_iff_eq_none.mpr (hnone other hother)
    have hfields := printCases_terminates hcase htref hdocs hfields
    cases htext
    simp only [List.append_assoc]
    exact infix_append_right _ (infix_append_right _ (infix_append_right _
      (infix_append_left _ hfields)))

theorem constantBody_no_slash (i : Nat) : '/' ∉ BitflagHeader.constantBody name i := by
  unfold BitflagHeader.constantBody
  simp +decide only [List.mem_append, typeName_no_slash, toDigits_no_slash, or_false,
    not_false_eq_true]

/-- The documentation of a bit is printed as that of a case is. -/
theorem memberText_eq (member : RecordMember) (i : Nat) :
    memberText toShoutySnakeCase name member i =
      docComment "" " * " " */\n" member.docs ++
        (Piece.define ("__WASI_".toList ++ (toShoutySnakeCase name).text ++ "_".toList ++
          (toShoutySnakeCase member.name).text) (BitflagHeader.constantBody name i)).text := by
  unfold memberText printMember docComment
  split
  · rw [List.nil_append, List.flatMap_singleton, List.nil_append]
  · rw [List.singleton_append, List.flatMap_cons, List.flatMap_singleton]
    rfl

theorem memberText_no_slash {member : RecordMember} (hdocs : member.docs = []) (i : Nat) :
    '/' ∉ memberText toShoutySnakeCase name member i := by
  have hbody := @constantBody_no_slash name i
  rw [memberText_eq, hdocs, docComment_nil, List.nil_append]
  unfold Piece.text
  dsimp only
  simp +decide only [List.mem_append, id_no_slash, hbody, or_false, not_false_eq_true]

theorem memberText_terminates {member : RecordMember} (hdocs : member.docs ≠ []) (i : Nat) :
    ['*', '/'] <:+: memberText toShoutySnakeCase name member i := by
  rw [memberText_eq]
  exact infix_append_left _ (docComment_terminates close_terminates.1 hdocs)

theorem printRecord_no_slash {s : RecordDatatype} (hbare : (Datatype.record s).Bare)
    (h : printRecord layouts toShoutySnakeCase name s = some text) : '/' ∉ text := by
  unfold printRecord at h
  split at h
  · rename_i repr _
    have hmembers : '/' ∉ s.members.zipIdx.flatMap (fun entry =>
        memberText toShoutySnakeCase name entry.1 entry.2) := by
      intro h
      obtain ⟨entry, hmem, hslash⟩ := List.mem_flatMap.mp h
      exact memberText_no_slash (hbare entry.1 (fst_mem_of_mem_zipIdx hmem)) entry.2 hslash
    have htypedef : '/' ∉ (Piece.typedef (intreprName repr) (typeName name)).text := by
      unfold Piece.text
      dsimp only
      simp +decide only [List.mem_append, intreprName_no_slash, typeName_no_slash, or_false,
        not_false_eq_true]
    rw [← Option.some.inj h, List.mem_append]
    exact fun hslash => hslash.elim htypedef hmembers
  · obtain ⟨fields, hfields, htext⟩ := Option.bind_eq_some_iff.mp h
    have hfields := printMembers_no_slash hbare hfields
    have hoffsets : '/' ∉ (layouts.memberLayout s).flatMap (fun layout =>
        offsetAssert name layout.1 layout.2) := by
      intro h
      obtain ⟨layout, _, hslash⟩ := List.mem_flatMap.mp h
      unfold offsetAssert at hslash
      simp +decide only [List.mem_append, typeName_no_slash, id_no_slash, toDigits_no_slash,
        or_false] at hslash
    cases htext
    simp +decide only [List.mem_append, hfields, hoffsets, typeName_no_slash,
      staticAsserts_no_slash, or_false, not_false_eq_true]

theorem printRecord_terminates {s : RecordDatatype} {member : RecordMember}
    (hmember : member ∈ s.members)
    (hdocs : member.docs ≠ []) (h : printRecord layouts toShoutySnakeCase name s = some text) :
    ['*', '/'] <:+: text := by
  unfold printRecord at h
  split at h
  · obtain ⟨i, hmem⟩ := exists_mem_zipIdx hmember
    have hmembers := infix_flatMap (f := fun entry =>
      memberText toShoutySnakeCase name entry.1 entry.2) hmem (memberText_terminates hdocs i)
    cases h
    exact infix_append_right _ hmembers
  · obtain ⟨fields, hfields, htext⟩ := Option.bind_eq_some_iff.mp h
    have hfields := printMembers_terminates hmember hdocs hfields
    cases htext
    simp only [List.append_assoc]
    exact infix_append_right _ (infix_append_right _ (infix_append_right _
      (infix_append_left _ hfields)))

theorem printDeclarations_no_slash {datatype : Datatype} (hbare : datatype.Bare)
    (h : printDeclarations layouts toShoutySnakeCase name datatype = some text) : '/' ∉ text := by
  cases datatype with
  | record s => exact printRecord_no_slash hbare h
  | variant v => exact printVariant_no_slash hbare h
  | handle =>
      cases h
      exact printHandle_no_slash
  | aliasOf dest => exact printAlias_no_slash h

theorem printDeclarations_terminates {datatype : Datatype} (hbare : ¬ datatype.Bare)
    (h : printDeclarations layouts toShoutySnakeCase name datatype = some text) :
    ['*', '/'] <:+: text := by
  cases datatype with
  | record s =>
      unfold Datatype.Bare at hbare
      push Not at hbare
      obtain ⟨member, hmember, hdocs⟩ := hbare
      exact printRecord_terminates hmember hdocs h
  | variant v =>
      unfold Datatype.Bare at hbare
      push Not at hbare
      obtain ⟨case, hcase, hprints, hdocs⟩ := hbare
      exact printVariant_terminates hcase hprints hdocs h
  | handle => exact absurd trivial hbare
  | aliasOf dest => exact absurd trivial hbare

theorem printDatatype_hidden {nt : NamedType} (hhidden : nt.hidden = true)
    (h : printDatatype layouts toShoutySnakeCase nt = some text) :
    ∃ declarations, printDeclarations layouts toShoutySnakeCase nt.name nt.datatype =
        some declarations ∧
      fromMarker nt text =
        '/' :: '*' :: ("*\n*** Hidden type\n".toList ++ declarations) ++ " */\n".toList := by
  obtain ⟨declarations, hdeclarations, htext⟩ := Option.bind_eq_some_iff.mp h
  refine ⟨declarations, hdeclarations, ?_⟩
  rw [hhidden, if_pos rfl, if_pos rfl] at htext
  rw [← Option.some.inj htext]
  unfold fromMarker
  simp only [List.append_assoc, List.drop_left]
  rfl

/-- The text of a hidden type is one comment exactly if no documentation is
printed with its members or cases. -/
theorem hidden_isComment_iff {nt : NamedType} (hhidden : nt.hidden = true)
    (h : printDatatype layouts toShoutySnakeCase nt = some text) :
    IsComment (fromMarker nt text) ↔ nt.datatype.Bare := by
  obtain ⟨declarations, hdeclarations, hmarker⟩ := printDatatype_hidden hhidden h
  rw [hmarker]
  constructor
  · intro hcomment
    by_contra hbare
    exact not_isComment_of_terminator
      (infix_append_right _ (printDeclarations_terminates hbare hdeclarations)) hcomment
  · intro hbare
    have hdeclarations := printDeclarations_no_slash hbare hdeclarations
    refine isComment_of_no_slash ?_
    simp +decide only [List.mem_append, hdeclarations, or_false, not_false_eq_true]

end Declarations

namespace HiddenWitness

def layouts : Layouts where
  tref _ := (4, 4)
  repr _ := (1, 1)
  record _ := (8, 4)
  variant _ := (16, 8)
  handle := (4, 4)
  memberLayout _ := []

def upper (id : Id) : Id :=
  if h : (id.text.map Char.toUpper).all CInteger.isWordChar = true then
    ⟨id.text.map Char.toUpper, h⟩
  else id

def whenceId : Id := ⟨"whence".toList, by decide⟩

def hiddenId : Id := ⟨"hidden".toList, by decide⟩

/-- A hidden enumeration of one case. -/
def whence (docs : List (List Char)) : NamedType where
  name := whenceId
  docs := []
  hidden := true
  datatype := .variant ⟨.u8, [⟨hiddenId, none, docs⟩]⟩

def printed (docs : List (List Char)) : List Char :=
  (printDatatype layouts upper (whence docs)).getD []

/-- Without documentation it is a comment. -/
theorem whence_isComment : IsComment (fromMarker (whence []) (printed [])) := by
  refine (@hidden_isComment_iff layouts upper (printed []) (whence []) rfl rfl).mpr ?_
  intro case hcase _
  obtain rfl := List.mem_singleton.mp hcase
  rfl

/-- With a line of documentation it ends at the line after it, and the macro and
the assertions are declarations. -/
theorem documented_not_isComment :
    printDatatype layouts upper (whence ["Seek.".toList]) = some (printed ["Seek.".toList]) ∧
      ¬ IsComment (fromMarker (whence ["Seek.".toList]) (printed ["Seek.".toList])) := by
  have hprinted : printDatatype layouts upper (whence ["Seek.".toList]) =
      some (printed ["Seek.".toList]) := rfl
  refine ⟨hprinted, ?_⟩
  obtain ⟨declarations, hdeclarations, hmarker⟩ := printDatatype_hidden rfl hprinted
  rw [hmarker]
  refine not_isComment_of_terminator
    (infix_append_right _ (printDeclarations_terminates ?_ hdeclarations))
  intro hbare
  have hnil := hbare _ List.mem_cons_self (Or.inr (fun case hcase => by
    obtain rfl := List.mem_singleton.mp hcase
    rfl))
  exact List.cons_ne_nil _ _ hnil

end HiddenWitness

end DatatypeHeader

end WasixLibc
