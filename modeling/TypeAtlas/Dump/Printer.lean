import TypeAtlas.Dump.Reader

/-!
# Printing a dump

A schema as the text of a dump, one item to a line: the pointer width, then each type with
its names, its size and its members. What a line says is read back from it, as long as the
texts on it have no blanks at their ends.
-/

namespace TypeAtlas

namespace Directive

def keyword : Directive → String
  | blank => ""
  | arch _ => "arch"
  | type kind => kind.name
  | field => "field"
  | enumerator => "enumerator"
  | name _ => "name"
  | otherName _ => "alias"
  | size _ => "size"
  | enumeratorName _ => "ek"
  | enumeratorValue _ => "ev"
  | fieldType _ => "type"
  | fieldOffset _ => "offset"
  | fieldPointers _ => "pdepth"
  | fieldArray _ => "arrsize"
  | fieldConst _ => "const"
  | fieldRecord _ => "isstruct"
  | unknown keyword => keyword

def writeFlag (value : Bool) : List Char := (if value then "true" else "false").toList

def argument : Directive → List Char
  | blank | type _ | field | enumerator | unknown _ | arch none => []
  | arch (some width) => Text.writeNat width.toNat
  | name text | otherName text | enumeratorName text | fieldType text => text.toList
  | size value | fieldOffset value | fieldArray value => Text.writeNat value.toNat
  | enumeratorValue value => Text.writeInt value.toInt
  | fieldPointers value => Text.writeNat value.toNat
  | fieldConst value | fieldRecord value => writeFlag value

def line (directive : Directive) : List Char :=
  if directive.argument.isEmpty then directive.keyword.toList
  else directive.keyword.toList ++ ' ' :: directive.argument

end Directive

/-! ## What lists a schema -/

def FieldDef.directives (field : FieldDef) : List Directive :=
  [.field, .name field.name, .fieldType field.typeName, .fieldOffset field.offset,
    .fieldPointers field.pointerDepth, .fieldArray field.arraySize, .fieldConst field.isConst,
    .fieldRecord field.isRecord]

def EnumeratorDef.directives (enumerator : EnumeratorDef) : List Directive :=
  [.enumerator, .enumeratorName enumerator.name, .enumeratorValue enumerator.value]

def TypeDef.directives (ty : TypeDef) : List Directive :=
  .type ty.kind :: .name ty.name :: ty.aliases.map .otherName ++ .size ty.size ::
    ty.fields.flatMap FieldDef.directives ++ ty.enumerators.flatMap EnumeratorDef.directives

def Schema.directives (schema : Schema) : List Directive :=
  (schema.arch.map fun width => .arch (some width)).toList ++
    schema.types.flatMap TypeDef.directives

def Dump.print (schema : Schema) : String :=
  String.ofList (schema.directives.flatMap fun directive => directive.line ++ ['\n'])

/-! ## Lines read back -/

namespace Directive

/-- The directive has a line of its own, with no blank behind its last word. -/
def IsWritable (directive : Directive) : Prop :=
  (∀ keyword, directive ≠ unknown keyword) ∧ Text.IsTrimmed directive.argument

theorem isBlank_of_mem_keyword {directive : Directive}
    (h : ∀ keyword, directive ≠ unknown keyword) :
    ∀ c ∈ directive.keyword.toList, Text.isBlank c = false := by
  have hall : (directive.keyword.toList.all fun c => !Text.isBlank c) = true := by
    cases directive with
    | type kind => cases kind <;> decide
    | unknown keyword => exact absurd rfl (h keyword)
    | _ => simp only [keyword]; decide
  intro c hc
  have hblank := List.all_eq_true.mp hall c hc
  exact Bool.not_eq_true' _ ▸ hblank

/-! A number that is written reads as itself. -/

theorem word?_writeNat (value : UInt64) : word? (Text.writeNat value.toNat) = some value := by
  rw [word?, Text.unsigned?_writeNat value.toNat_lt]
  exact congrArg some UInt64.ofNat_toNat

theorem word_writeNat (value : UInt64) : word (Text.writeNat value.toNat) = value := by
  rw [word, word?_writeNat]
  rfl

theorem half_writeNat (value : UInt32) : half (Text.writeNat value.toNat) = value := by
  rw [half, Text.unsigned?_writeNat value.toNat_lt]
  exact UInt32.ofNat_toNat

theorem signed_writeInt (value : Int64) : signed (Text.writeInt value.toInt) = value := by
  rw [signed, Text.signed?_writeInt value.le_toInt value.toInt_lt]
  exact Int64.ofInt_toInt value

/-- The keyword and the argument mean the directive again. -/
theorem ofKeyword_keyword_argument {directive : Directive}
    (h : ∀ keyword, directive ≠ unknown keyword) :
    ofKeyword directive.keyword directive.argument = directive := by
  cases directive with
  | unknown keyword => exact absurd rfl (h keyword)
  | type kind => cases kind <;> rfl
  | arch width =>
    cases width with
    | none => rfl
    | some width => exact congrArg arch (word?_writeNat width)
  | size value => exact congrArg size (word_writeNat value)
  | fieldOffset value => exact congrArg fieldOffset (word_writeNat value)
  | fieldArray value => exact congrArg fieldArray (word_writeNat value)
  | fieldPointers value => exact congrArg fieldPointers (half_writeNat value)
  | enumeratorValue value => exact congrArg enumeratorValue (signed_writeInt value)
  | fieldConst value => cases value <;> rfl
  | fieldRecord value => cases value <;> rfl
  | name text => exact congrArg name (String.ofList_toList)
  | otherName text => exact congrArg otherName (String.ofList_toList)
  | enumeratorName text => exact congrArg enumeratorName (String.ofList_toList)
  | fieldType text => exact congrArg fieldType (String.ofList_toList)
  | blank => rfl
  | field => rfl
  | enumerator => rfl

theorem keyword_ne_nil {directive : Directive} (h : directive.argument ≠ []) :
    directive.keyword.toList ≠ [] := by
  cases directive with
  | blank | unknown keyword => exact absurd rfl h
  | type kind => cases kind <;> decide
  | _ => simp only [keyword]; decide

/-- A line that is written says the directive it was written for. -/
theorem ofLine_line {directive : Directive} (h : directive.IsWritable) :
    ofLine directive.line = directive := by
  obtain ⟨hknown, htrim⟩ := h
  have hword := isBlank_of_mem_keyword hknown
  have hmeant := ofKeyword_keyword_argument hknown
  by_cases hnone : directive.argument = []
  · rw [hnone] at hmeant
    have hline : directive.line = directive.keyword.toList := by simp [line, hnone]
    rw [ofLine, hline, Text.trim_eq_self (Text.isTrimmed_of_word hword),
      Text.firstWord_of_word hword]
    simpa using hmeant
  · have hline : directive.line = directive.keyword.toList ++ ' ' :: directive.argument := by
      simp [line, hnone]
    have hends : Text.IsTrimmed (directive.keyword.toList ++ ' ' :: directive.argument) :=
      Text.isTrimmed_append hword (keyword_ne_nil hnone) htrim.2 hnone
    rw [ofLine, hline, Text.trim_eq_self hends, Text.firstWord_append hword rfl,
      Text.trim_eq_self htrim]
    simpa using hmeant

end Directive

end TypeAtlas
