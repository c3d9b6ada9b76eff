import Mathlib.Data.List.Forall2
import TypeAtlas.Proofs.Dump.Blocks
import TypeAtlas.Proofs.Text.Reading

/-!
# What a dump means

The meaning of a dump without a reader: its lines are split into words and arguments, the word of
a line and the numbers on it say one thing, and what the lines say falls into blocks. The reader
comes to this meaning for every text, and there is no other.
-/

namespace TypeAtlas

/-- A relation that is the graph of a function, element by element. -/
theorem forall₂_iff_map_eq {α β : Type} {R : α → β → Prop} {f : α → β} {as : List α}
    {bs : List β} (h : ∀ a b, R a b ↔ f a = b) :
    List.Forall₂ R as bs ↔ as.map f = bs := by
  have heq : List.Forall₂ (· = ·) (as.map f) bs ↔ as.map f = bs := by
    rw [List.forall₂_eq_eq_eq]
  rw [← heq, List.forall₂_map_left_iff]
  exact ⟨fun hall => hall.imp fun _ _ => (h _ _).mp, fun hall => hall.imp fun _ _ => (h _ _).mpr⟩

namespace Directive

/-! ## Numbers on a line -/

theorem word?_eq_some_iff {argument : List Char} {value : UInt64} :
    Directive.word? argument = some value ↔ Text.WritesUnsigned argument value.toNat := by
  rw [Directive.word?, Option.map_eq_some_iff]
  constructor
  · intro hgiven
    rcases hgiven with ⟨n, hn, rfl⟩
    obtain ⟨hwrites, hlt⟩ := Text.unsigned?_eq_some_iff.mp hn
    rwa [UInt64.toNat_ofNat_of_lt' hlt]
  · intro h
    exact ⟨value.toNat, Text.unsigned?_eq_some_iff.mpr ⟨h, value.toNat_lt⟩, UInt64.ofNat_toNat⟩

theorem half?_eq_some_iff {argument : List Char} {value : UInt32} :
    (Text.unsigned? UInt32.size argument).map UInt32.ofNat = some value ↔
      Text.WritesUnsigned argument value.toNat := by
  rw [Option.map_eq_some_iff]
  constructor
  · intro hgiven
    rcases hgiven with ⟨n, hn, rfl⟩
    obtain ⟨hwrites, hlt⟩ := Text.unsigned?_eq_some_iff.mp hn
    rwa [UInt32.toNat_ofNat_of_lt' hlt]
  · intro h
    exact ⟨value.toNat, Text.unsigned?_eq_some_iff.mpr ⟨h, value.toNat_lt⟩, UInt32.ofNat_toNat⟩

theorem signed?_eq_some_iff {argument : List Char} {value : Int64} :
    (Text.signed? 0x8000000000000000 argument).map Int64.ofInt = some value ↔
      Text.WritesSigned argument value.toInt := by
  have hlimit : 0 < 0x8000000000000000 := by decide
  rw [Option.map_eq_some_iff]
  constructor
  · intro hgiven
    rcases hgiven with ⟨z, hz, rfl⟩
    obtain ⟨hwrites, hlow, hhigh⟩ := (Text.signed?_eq_some_iff hlimit).mp hz
    rwa [Int64.toInt_ofInt_of_le hlow hhigh]
  · intro h
    exact ⟨value.toInt,
      (Text.signed?_eq_some_iff hlimit).mpr ⟨h, value.le_toInt, value.toInt_lt⟩,
      Int64.ofInt_toInt value⟩

def words : List String :=
  ["", "arch", "base", "struct", "union", "enum", "field", "enumerator", "name", "alias", "size",
    "ek", "ev", "type", "offset", "pdepth", "arrsize", "const", "isstruct"]

/-- What a word and the argument behind it say. -/
inductive Says : String → List Char → Directive → Prop
  | blank (argument : List Char) : Says "" argument .blank
  | arch {argument : List Char} {width : Option UInt64}
      (h : ∀ value, width = some value ↔ Text.WritesUnsigned argument value.toNat) :
      Says "arch" argument (.arch width)
  | base (argument : List Char) : Says "base" argument (.type .base)
  | struct (argument : List Char) : Says "struct" argument (.type .struct)
  | union (argument : List Char) : Says "union" argument (.type .union)
  | enum (argument : List Char) : Says "enum" argument (.type .enum)
  | field (argument : List Char) : Says "field" argument .field
  | enumerator (argument : List Char) : Says "enumerator" argument .enumerator
  | name (argument : List Char) : Says "name" argument (.name (String.ofList argument))
  | otherName (argument : List Char) : Says "alias" argument (.otherName (String.ofList argument))
  | size {argument : List Char} {value : UInt64}
      (h : Text.ReadsAs (fun n : UInt64 => Text.WritesUnsigned argument n.toNat) 0 value) :
      Says "size" argument (.size value)
  | enumeratorName (argument : List Char) :
      Says "ek" argument (.enumeratorName (String.ofList argument))
  | enumeratorValue {argument : List Char} {value : Int64}
      (h : Text.ReadsAs (fun z : Int64 => Text.WritesSigned argument z.toInt) 0 value) :
      Says "ev" argument (.enumeratorValue value)
  | fieldType (argument : List Char) : Says "type" argument (.fieldType (String.ofList argument))
  | fieldOffset {argument : List Char} {value : UInt64}
      (h : Text.ReadsAs (fun n : UInt64 => Text.WritesUnsigned argument n.toNat) 0 value) :
      Says "offset" argument (.fieldOffset value)
  | fieldPointers {argument : List Char} {value : UInt32}
      (h : Text.ReadsAs (fun n : UInt32 => Text.WritesUnsigned argument n.toNat) 0 value) :
      Says "pdepth" argument (.fieldPointers value)
  | fieldArray {argument : List Char} {value : UInt64}
      (h : Text.ReadsAs (fun n : UInt64 => Text.WritesUnsigned argument n.toNat) 0 value) :
      Says "arrsize" argument (.fieldArray value)
  | fieldConst {argument : List Char} {value : Bool}
      (h : value = true ↔ argument = "true".toList) : Says "const" argument (.fieldConst value)
  | fieldRecord {argument : List Char} {value : Bool}
      (h : value = true ↔ argument = "true".toList) : Says "isstruct" argument (.fieldRecord value)
  | unknown {word : String} (argument : List Char) (h : word ∉ words) :
      Says word argument (.unknown word)

theorem flag_eq_iff {argument : List Char} {value : Bool} :
    flag argument = value ↔ (value = true ↔ argument = "true".toList) := by
  rw [Bool.eq_iff_iff, flag, beq_iff_eq]
  exact iff_comm

theorem word_eq_iff {argument : List Char} {value : UInt64} :
    word argument = value ↔
      Text.ReadsAs (fun n : UInt64 => Text.WritesUnsigned argument n.toNat) 0 value :=
  (Text.readsAs_iff fun _ => word?_eq_some_iff).symm

theorem half_eq_iff {argument : List Char} {value : UInt32} :
    half argument = value ↔
      Text.ReadsAs (fun n : UInt32 => Text.WritesUnsigned argument n.toNat) 0 value := by
  have hhalf : half argument = ((Text.unsigned? UInt32.size argument).map UInt32.ofNat).getD 0 := by
    rw [half]
    cases Text.unsigned? UInt32.size argument <;> rfl
  rw [hhalf, Text.readsAs_iff fun _ => half?_eq_some_iff]

theorem signed_eq_iff {argument : List Char} {value : Int64} :
    signed argument = value ↔
      Text.ReadsAs (fun z : Int64 => Text.WritesSigned argument z.toInt) 0 value := by
  have hsigned : signed argument =
      ((Text.signed? 0x8000000000000000 argument).map Int64.ofInt).getD 0 := by
    rw [signed]
    cases Text.signed? 0x8000000000000000 argument <;> rfl
  rw [hsigned, Text.readsAs_iff fun _ => signed?_eq_some_iff]

theorem says_ofKeyword (word : String) (argument : List Char) :
    Says word argument (ofKeyword word argument) := by
  unfold ofKeyword
  -- One case for each word, in the order of the table.
  split
  · exact .blank argument
  · exact .arch fun _ => word?_eq_some_iff
  · exact .base argument
  · exact .struct argument
  · exact .union argument
  · exact .enum argument
  · exact .field argument
  · exact .enumerator argument
  · exact .name argument
  · exact .otherName argument
  · exact .size (word_eq_iff.mp rfl)
  · exact .enumeratorName argument
  · exact .enumeratorValue (signed_eq_iff.mp rfl)
  · exact .fieldType argument
  · exact .fieldOffset (word_eq_iff.mp rfl)
  · exact .fieldPointers (half_eq_iff.mp rfl)
  · exact .fieldArray (word_eq_iff.mp rfl)
  · exact .fieldConst (flag_eq_iff.mp rfl)
  · exact .fieldRecord (flag_eq_iff.mp rfl)
  · refine .unknown argument ?_
    simp_all [words]

/-- A word and an argument say one thing. -/
theorem says_iff {word : String} {argument : List Char} {directive : Directive} :
    Says word argument directive ↔ ofKeyword word argument = directive := by
  constructor
  · intro h
    cases h with
    | arch h =>
      refine congrArg arch (Option.ext fun value => ?_)
      rw [h, word?_eq_some_iff]
    | size h => exact congrArg size (word_eq_iff.mpr h)
    | fieldOffset h => exact congrArg fieldOffset (word_eq_iff.mpr h)
    | fieldArray h => exact congrArg fieldArray (word_eq_iff.mpr h)
    | fieldPointers h => exact congrArg fieldPointers (half_eq_iff.mpr h)
    | enumeratorValue h => exact congrArg enumeratorValue (signed_eq_iff.mpr h)
    | fieldConst h => exact congrArg fieldConst (flag_eq_iff.mpr h)
    | fieldRecord h => exact congrArg fieldRecord (flag_eq_iff.mpr h)
    | unknown argument h =>
      unfold ofKeyword
      split <;> simp_all [words]
    | _ => rfl
  · rintro rfl
    exact says_ofKeyword word argument

def SaidBy (line : List Char) (directive : Directive) : Prop :=
  ∃ word argument, Text.Splits line word argument ∧ Says (String.ofList word) argument directive

theorem saidBy_iff {line : List Char} {directive : Directive} :
    SaidBy line directive ↔ ofLine line = directive := by
  simp only [SaidBy, Text.splits_iff, says_iff]
  constructor
  · intro hgiven
    rcases hgiven with ⟨word, argument, hsplit, rfl⟩
    rw [ofLine, hsplit]
  · rintro rfl
    exact ⟨_, _, rfl, rfl⟩

theorem forall₂_saidBy_iff {rows : List (List Char)} {lines : List Directive} :
    List.Forall₂ SaidBy rows lines ↔ rows.map ofLine = lines :=
  forall₂_iff_map_eq fun _ _ => saidBy_iff

end Directive

namespace Dump

/-- The schema that the blocks of a text's lines give. -/
def Means (text : String) (schema : Schema) : Prop :=
  ∃ lines, List.Forall₂ Directive.SaidBy (text.toList.splitOn '\n') lines ∧ ofBlocks lines = schema

/-- A text is read as what it means. -/
theorem means_iff {text : String} {schema : Schema} : Means text schema ↔ parse text = schema := by
  rw [parse, ofDirectives_eq_ofBlocks, directives, Text.lines_eq_splitOn]
  simp only [Means, Directive.forall₂_saidBy_iff, exists_eq_left']

theorem forall₂_means_iff {texts : List String} {meanings : List Schema} :
    List.Forall₂ Means texts meanings ↔ texts.map parse = meanings :=
  forall₂_iff_map_eq fun _ _ => means_iff

/-- A dump gives one type for each of its blocks that names one, from the lines of the block
alone; a line is its word and argument, and the word says what the line gives; and a number that
is not written, or does not fit, reads as zero. -/
theorem parse_eq_ofBlocks (text : String) :
    parse text = ofBlocks ((text.toList.splitOn '\n').map Directive.ofLine) ∧
    (∀ line, ∃ word argument, Text.Splits line word argument ∧
      Directive.ofLine line = .ofKeyword (String.ofList word) argument) ∧
    (∀ word argument, Directive.Says word argument (.ofKeyword word argument)) ∧
    (∀ argument value,
      Directive.word? argument = some value ↔ Text.WritesUnsigned argument value.toNat) ∧
    (∀ argument, Text.ReadsAs
      (fun value : UInt64 => Text.WritesUnsigned argument value.toNat) 0
      (Directive.word argument)) ∧
    (∀ argument, Text.ReadsAs
      (fun value : UInt32 => Text.WritesUnsigned argument value.toNat) 0
      (Directive.half argument)) ∧
    (∀ argument, Text.ReadsAs
      (fun value : Int64 => Text.WritesSigned argument value.toInt) 0
      (Directive.signed argument)) ∧
    ∀ schema, Means text schema ↔ parse text = schema := by
  refine ⟨?_, ?_, Directive.says_ofKeyword, fun _ _ => Directive.word?_eq_some_iff,
    fun _ => Directive.word_eq_iff.mp rfl, fun _ => Directive.half_eq_iff.mp rfl,
    fun _ => Directive.signed_eq_iff.mp rfl, fun _ => means_iff⟩
  · rw [parse, ofDirectives_eq_ofBlocks, directives, Text.lines_eq_splitOn]
  · intro line
    exact ⟨_, _, Text.splits_firstWord line, rfl⟩

end Dump

end TypeAtlas
