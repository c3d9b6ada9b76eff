import TypeAtlas.Dump.Printer
import TypeAtlas.Proofs.Dump.Blocks
import TypeAtlas.Proofs.Text.Reading

/-!
# Listed schemas read back

The dump that lists a schema has a line for every item, which says the directive that it was
written for. Its blocks are those of the types, and the segments of a block those of the
members, so each attribute is looked for where it was listed and the schema is read again.
-/

namespace TypeAtlas

namespace Text

/-! ## What a line can end with -/

/-- The text stands at the end of a line as it is. -/
def EndsLine (text : List Char) : Prop := '\n' ∉ text ∧ IsTrimmed text

instance (text : List Char) : Decidable (EndsLine text) :=
  decidable_of_iff ((!text.contains '\n' && text.head?.all (!isBlank ·) &&
      text.getLast?.all (!isBlank ·)) = true) <| by
    simp [EndsLine, IsTrimmed, Option.all_eq_true, and_assoc]

theorem endsLine_of_word {word : List Char} (h : ∀ c ∈ word, isBlank c = false) :
    EndsLine word := by
  refine ⟨?_, isTrimmed_of_word h⟩
  intro hmem
  exact absurd (h '\n' hmem) (by decide)

theorem isBlank_digitOf (d : Nat) : isBlank (digitOf d) = false := by
  have h : ∀ e, e < 10 → isBlank (Char.ofNat ('0'.toNat + e)) = false := by decide
  exact h (d % 10) (Nat.mod_lt d (by omega))

theorem isBlank_of_mem_writeNat {n : Nat} {c : Char} (h : c ∈ writeNat n) : isBlank c = false := by
  obtain ⟨d, rfl⟩ := exists_digitOf_of_mem_writeNat h
  exact isBlank_digitOf d

theorem endsLine_writeNat (n : Nat) : EndsLine (writeNat n) :=
  endsLine_of_word fun _ => isBlank_of_mem_writeNat

theorem endsLine_writeInt (n : Int) : EndsLine (writeInt n) := by
  apply endsLine_of_word
  intro c hmem
  unfold writeInt at hmem
  split at hmem
  · cases hmem with
    | head => decide
    | tail _ hdigit => exact isBlank_of_mem_writeNat hdigit
  · exact isBlank_of_mem_writeNat hmem

end Text

namespace Directive

def Listable (directive : Directive) : Prop :=
  (∀ keyword, directive ≠ unknown keyword) ∧ Text.EndsLine directive.argument

theorem Listable.lineFeed_not_mem {directive : Directive} (h : directive.Listable) :
    '\n' ∉ directive.line := by
  obtain ⟨hknown, hargument, -⟩ := h
  have hkeyword : '\n' ∉ directive.keyword.toList :=
    (Text.endsLine_of_word (isBlank_of_mem_keyword hknown)).1
  unfold line
  split
  · exact hkeyword
  · simp [hkeyword, hargument]

end Directive

namespace Dump

/-- What is listed is read again, and behind it there is one more line with nothing on it. -/
theorem directives_listed {listed : List Directive} (h : ∀ line ∈ listed, line.Listable) :
    directives (String.ofList (listed.flatMap fun line => line.line ++ ['\n'])) =
      listed ++ [.blank] := by
  have hrows : ∀ row ∈ listed.map Directive.line, '\n' ∉ row := by
    intro row hmem
    obtain ⟨line, hline, rfl⟩ := List.mem_map.mp hmem
    exact (h line hline).lineFeed_not_mem
  have hread : (listed.map Directive.line).map Directive.ofLine = listed := by
    rw [List.map_map]
    refine (List.map_congr_left ?_).trans (List.map_id listed)
    intro line hmem
    exact Directive.ofLine_line ⟨(h line hmem).1, (h line hmem).2.2⟩
  -- The line feed that ends the last line leaves an empty line behind it.
  have hlines := Text.lines_flatMap hrows
  rw [List.flatMap_map] at hlines
  rw [directives, String.toList_ofList, hlines, List.map_append, hread]
  rfl

/-! ## The blocks of what is listed -/

/-- Parts that are put together are cut again where they begin. -/
theorem cutBefore_append_joined {begins? : α → Option β} {begin : β → α}
    (hbegin : ∀ what, begins? (begin what) = some what) {front : List α}
    {parts : List (β × List α)} (hfront : ∀ entry ∈ front, begins? entry = none)
    (hparts : ∀ part ∈ parts, ∀ entry ∈ part.2, begins? entry = none) :
    cutBefore begins? (front ++ joined begin parts) = (front, parts) := by
  induction parts generalizing front with
  | nil => rw [joined, List.flatMap_nil, List.append_nil, cutBefore_of_none hfront]
  | cons part rest ih =>
    obtain ⟨what, entries⟩ := part
    obtain ⟨hpart, hrest⟩ := List.forall_mem_cons.mp hparts
    have hjoined : joined begin ((what, entries) :: rest) =
        begin what :: (entries ++ joined begin rest) := rfl
    rw [hjoined, cutBefore_append_cons (hbegin what), cutBefore_of_none hfront, ih hpart hrest]
    rfl

end Dump

def FieldDef.segment (field : FieldDef) : List Directive := field.directives.tail

def EnumeratorDef.segment (enumerator : EnumeratorDef) : List Directive :=
  enumerator.directives.tail

namespace TypeDef

def heading (ty : TypeDef) : List Directive :=
  .name ty.name :: ty.aliases.map .otherName ++ [.size ty.size]

def segments (ty : TypeDef) : List (Dump.MemberKind × List Directive) :=
  ty.fields.map (fun field => (.field, field.segment)) ++
    ty.enumerators.map fun enumerator => (.enumerator, enumerator.segment)

def body (ty : TypeDef) : List Directive :=
  ty.heading ++ Dump.joined Dump.MemberKind.directive ty.segments

theorem joined_segments (ty : TypeDef) :
    Dump.joined Dump.MemberKind.directive ty.segments =
      ty.fields.flatMap FieldDef.directives ++ ty.enumerators.flatMap EnumeratorDef.directives := by
  rw [Dump.joined, segments, List.flatMap_append, List.flatMap_map, List.flatMap_map]
  rfl

theorem directives_eq (ty : TypeDef) : ty.directives = .type ty.kind :: ty.body := by
  rw [body, joined_segments]
  simp [directives, heading]

/-- What no line of a member gives is given by the lines before the members. -/
theorem filterMap_body {gives? : Directive → Option α} (ty : TypeDef)
    (hfield : ∀ field : FieldDef, field.directives.filterMap gives? = [])
    (henumerator : ∀ enumerator : EnumeratorDef, enumerator.directives.filterMap gives? = []) :
    ty.body.filterMap gives? = ty.heading.filterMap gives? := by
  rw [body, joined_segments, List.filterMap_append, List.filterMap_append, List.filterMap_flatMap,
    List.filterMap_flatMap]
  simp [hfield, henumerator]

/-- The heading gives its other names, and the name and the size before and after them. -/
theorem filterMap_heading (gives? : Directive → Option α) (ty : TypeDef) :
    ty.heading.filterMap gives? =
      (gives? (.name ty.name)).toList ++ ty.aliases.filterMap (gives? ∘ .otherName) ++
        (gives? (.size ty.size)).toList := by
  rw [heading, List.filterMap_append, List.filterMap_cons, List.filterMap_map]
  cases gives? (.name ty.name) <;> cases hsize : gives? (.size ty.size) <;> simp [hsize]

end TypeDef

theorem Schema.directives_eq (schema : Schema) :
    schema.directives =
      (schema.arch.map fun width => .arch (some width)).toList ++
        Dump.joined Directive.type (schema.types.map fun ty => (ty.kind, ty.body)) := by
  have htypes : TypeDef.directives = fun ty => .type ty.kind :: ty.body :=
    funext TypeDef.directives_eq
  rw [directives, htypes, Dump.joined, List.flatMap_map]

namespace Dump

theorem fieldOf_segment (field : FieldDef) : fieldOf field.segment = field := rfl

theorem enumeratorOf_segment (enumerator : EnumeratorDef) :
    enumeratorOf enumerator.segment = enumerator := rfl

theorem cutBefore_body (ty : TypeDef) :
    cutBefore memberBegun? ty.body = (ty.heading, ty.segments) := by
  refine cutBefore_append_joined (by rintro (_ | _) <;> rfl) ?_ ?_
  · rw [← List.filterMap_eq_nil_iff, TypeDef.filterMap_heading]
    simp [memberBegun?]
  · intro part hmem
    rw [← List.filterMap_eq_nil_iff]
    rcases List.mem_append.mp hmem with hfield | henumerator
    · obtain ⟨field, -, rfl⟩ := List.mem_map.mp hfield
      rfl
    · obtain ⟨enumerator, -, rfl⟩ := List.mem_map.mp henumerator
      rfl

theorem typeOf_body {ty : TypeDef} (hfields : ∀ field ∈ ty.fields, field.name ≠ "")
    (henumerators : ∀ enumerator ∈ ty.enumerators, enumerator.name ≠ "") :
    typeOf (ty.kind, ty.body) = ty := by
  have hname : lastGiven name? ty.heading = some ty.name := by
    have hnone : ty.aliases.filterMap (name? ∘ .otherName) = [] :=
      List.filterMap_eq_nil_iff.mpr fun _ _ => rfl
    rw [lastGiven, TypeDef.filterMap_heading, hnone]
    rfl
  have hsize : lastGiven size? ty.body = some ty.size := by
    rw [lastGiven, ty.filterMap_body (fun _ => rfl) (fun _ => rfl), TypeDef.filterMap_heading]
    simp [size?]
  have haliases : ty.body.filterMap otherName? = ty.aliases := by
    rw [ty.filterMap_body (fun _ => rfl) (fun _ => rfl), TypeDef.filterMap_heading]
    simp [otherName?, Function.comp_def]
  have hfieldsRead : ty.segments.filterMap fieldOf? = ty.fields := by
    simp [TypeDef.segments, Function.comp_def, fieldOf?, fieldOf_segment]
  have henumeratorsRead : ty.segments.filterMap enumeratorOf? = ty.enumerators := by
    simp [TypeDef.segments, Function.comp_def, enumeratorOf?, enumeratorOf_segment]
  have hfieldsKept : ty.fields.filter (·.name ≠ "") = ty.fields :=
    List.filter_eq_self.mpr fun field hmem => decide_eq_true (hfields field hmem)
  have henumeratorsKept : ty.enumerators.filter (·.name ≠ "") = ty.enumerators :=
    List.filter_eq_self.mpr fun enumerator hmem => decide_eq_true (henumerators enumerator hmem)
  simp only [typeOf, cutBefore_body, hname, hsize, haliases, hfieldsRead, henumeratorsRead,
    hfieldsKept, henumeratorsKept, Option.getD_some]

/-! ## Schemas that can be listed -/

/-- The name can be told from no name, and stands on a line as it is. -/
def IsListedName (name : String) : Prop := name ≠ "" ∧ Text.EndsLine name.toList

instance (name : String) : Decidable (IsListedName name) :=
  inferInstanceAs (Decidable (name ≠ "" ∧ Text.EndsLine name.toList))

end Dump

/-- Types and members have names, and every text of the type stands on a line as it is. -/
structure TypeDef.Listable (ty : TypeDef) : Prop where
  name : Dump.IsListedName ty.name
  aliases : ∀ other ∈ ty.aliases, Text.EndsLine other.toList
  fields : ∀ field ∈ ty.fields,
    Dump.IsListedName field.name ∧ Text.EndsLine field.typeName.toList
  enumerators : ∀ enumerator ∈ ty.enumerators, Dump.IsListedName enumerator.name

theorem TypeDef.listable_iff (ty : TypeDef) :
    ty.Listable ↔ Dump.IsListedName ty.name ∧
      (∀ other ∈ ty.aliases, Text.EndsLine other.toList) ∧
      (∀ field ∈ ty.fields, Dump.IsListedName field.name ∧ Text.EndsLine field.typeName.toList) ∧
      ∀ enumerator ∈ ty.enumerators, Dump.IsListedName enumerator.name :=
  ⟨fun h => ⟨h.name, h.aliases, h.fields, h.enumerators⟩, fun h => ⟨h.1, h.2.1, h.2.2.1, h.2.2.2⟩⟩

instance (ty : TypeDef) : Decidable ty.Listable :=
  decidable_of_iff ((decide (Dump.IsListedName ty.name) &&
      ty.aliases.all (fun other => decide (Text.EndsLine other.toList)) &&
      ty.fields.all (fun field =>
        decide (Dump.IsListedName field.name ∧ Text.EndsLine field.typeName.toList)) &&
      ty.enumerators.all fun enumerator => decide (Dump.IsListedName enumerator.name)) = true) <| by
    simp [ty.listable_iff, and_assoc]

def Schema.Listable (schema : Schema) : Prop := ∀ ty ∈ schema.types, ty.Listable

instance (schema : Schema) : Decidable schema.Listable :=
  decidable_of_iff (schema.types.all fun ty => decide ty.Listable) <| by
    simp [Schema.Listable]

namespace Dump

/-! ## Blocks of a schema -/

theorem cutBefore_directives (schema : Schema) :
    cutBefore typeBegun? schema.directives =
      ((schema.arch.map fun width => .arch (some width)).toList,
        schema.types.map fun ty => (ty.kind, ty.body)) := by
  have hbegin : ∀ kind, typeBegun? (.type kind) = some kind := fun _ => rfl
  rw [schema.directives_eq]
  refine cutBefore_append_joined hbegin ?_ ?_
  · rw [← List.filterMap_eq_nil_iff]
    cases schema.arch <;> rfl
  · intro block hmem
    obtain ⟨ty, -, rfl⟩ := List.mem_map.mp hmem
    rw [← List.filterMap_eq_nil_iff, ty.filterMap_body (fun _ => rfl) (fun _ => rfl),
      TypeDef.filterMap_heading]
    simp [typeBegun?]

theorem lastGiven_width?_directives (schema : Schema) :
    lastGiven width? schema.directives = schema.arch := by
  have hnone : (joined Directive.type (schema.types.map fun ty => (ty.kind, ty.body))).filterMap
      width? = [] := by
    rw [joined, List.flatMap_map, List.filterMap_flatMap, List.flatMap_eq_nil_iff]
    intro ty _
    rw [List.filterMap_cons_none rfl, ty.filterMap_body (fun _ => rfl) (fun _ => rfl),
      TypeDef.filterMap_heading]
    simp [width?]
  rw [schema.directives_eq, lastGiven, List.filterMap_append, hnone, List.append_nil]
  cases schema.arch <;> rfl

/-- The blocks of what lists a schema say the schema. -/
theorem ofBlocks_directives {schema : Schema} (h : schema.Listable) :
    ofBlocks schema.directives = schema := by
  have htypes : (schema.types.map fun ty => (ty.kind, ty.body)).map typeOf = schema.types := by
    rw [List.map_map]
    refine (List.map_congr_left ?_).trans (List.map_id schema.types)
    intro ty hmem
    have hty := h ty hmem
    exact typeOf_body (fun field hfield => (hty.fields field hfield).1.1)
      fun enumerator henumerator => (hty.enumerators enumerator henumerator).1
  have hkept : schema.types.filter (·.name ≠ "") = schema.types :=
    List.filter_eq_self.mpr fun ty hmem => decide_eq_true (h ty hmem).name.1
  rw [ofBlocks, cutBefore_directives, lastGiven_width?_directives, htypes, hkept]

/-! ## Lines of a schema -/

theorem endsLine_writeFlag (value : Bool) : Text.EndsLine (Directive.writeFlag value) := by
  have hall : ((Directive.writeFlag value).all fun c => !Text.isBlank c) = true := by
    cases value <;> decide
  apply Text.endsLine_of_word
  intro c hmem
  simpa using List.all_eq_true.mp hall c hmem

theorem endsLine_nil : Text.EndsLine [] := Text.endsLine_of_word nofun

theorem listable_field {field : FieldDef} (hname : Text.EndsLine field.name.toList)
    (htype : Text.EndsLine field.typeName.toList) : ∀ line ∈ field.directives, line.Listable := by
  simp only [FieldDef.directives, List.forall_mem_cons]
  refine ⟨⟨nofun, endsLine_nil⟩, ⟨nofun, hname⟩, ⟨nofun, htype⟩,
    ⟨nofun, Text.endsLine_writeNat _⟩, ⟨nofun, Text.endsLine_writeNat _⟩,
    ⟨nofun, Text.endsLine_writeNat _⟩, ⟨nofun, endsLine_writeFlag _⟩,
    ⟨nofun, endsLine_writeFlag _⟩, nofun⟩

theorem listable_enumerator {enumerator : EnumeratorDef}
    (hname : Text.EndsLine enumerator.name.toList) :
    ∀ line ∈ enumerator.directives, line.Listable := by
  simp only [EnumeratorDef.directives, List.forall_mem_cons]
  exact ⟨⟨nofun, endsLine_nil⟩, ⟨nofun, hname⟩, ⟨nofun, Text.endsLine_writeInt _⟩, nofun⟩

theorem listable_type {ty : TypeDef} (h : ty.Listable) :
    ∀ line ∈ ty.directives, line.Listable := by
  have haliases : ∀ line ∈ ty.aliases.map Directive.otherName, line.Listable := by
    intro line hmem
    obtain ⟨other, hother, rfl⟩ := List.mem_map.mp hmem
    exact ⟨nofun, h.aliases other hother⟩
  have hfields : ∀ line ∈ ty.fields.flatMap FieldDef.directives, line.Listable := by
    intro line hmem
    obtain ⟨field, hfield, hline⟩ := List.mem_flatMap.mp hmem
    exact listable_field (h.fields field hfield).1.2 (h.fields field hfield).2 line hline
  have henumerators :
      ∀ line ∈ ty.enumerators.flatMap EnumeratorDef.directives, line.Listable := by
    intro line hmem
    obtain ⟨enumerator, henumerator, hline⟩ := List.mem_flatMap.mp hmem
    exact listable_enumerator (h.enumerators enumerator henumerator).2 line hline
  simp only [TypeDef.directives, List.cons_append, List.forall_mem_cons, List.forall_mem_append]
  exact ⟨⟨nofun, endsLine_nil⟩, ⟨nofun, h.name.2⟩,
    ⟨haliases, ⟨nofun, Text.endsLine_writeNat _⟩, hfields⟩, henumerators⟩

theorem listable_schema {schema : Schema} (h : schema.Listable) :
    ∀ line ∈ schema.directives, line.Listable := by
  rw [Schema.directives, List.forall_mem_append]
  constructor
  · intro line hmem
    obtain ⟨width, -, rfl⟩ := Option.map_eq_some_iff.mp (Option.mem_toList.mp hmem)
    exact ⟨nofun, Text.endsLine_writeNat _⟩
  · intro line hmem
    obtain ⟨ty, hty, hline⟩ := List.mem_flatMap.mp hmem
    exact listable_type (h ty hty) line hline

/-- A schema whose types and members have names, and whose texts are whole lines, is read again
from the dump that lists it. -/
theorem parse_print {schema : Schema} (h : schema.Listable) : parse (print schema) = schema := by
  rw [parse, print, directives_listed (listable_schema h), ofDirectives_concat_blank,
    ofDirectives_eq_ofBlocks, ofBlocks_directives h]

/-- Names that look like lines, in a type with members of both kinds and the largest and least
numbers. -/
def misleading : Schema where
  arch := some 18446744073709551615
  types := [
    { name := "struct", kind := .base, size := 0, aliases := ["", "name a\rfield"], fields := []
      enumerators := [⟨"ev 1", -9223372036854775808⟩, ⟨"base", 9223372036854775807⟩] },
    { name := "name  struct", kind := .union, size := 18446744073709551615, aliases := []
      fields := [⟨"enum", "", 18446744073709551615, 4294967295, 0, true, false⟩,
        ⟨"size 4", "const true", 0, 0, 7, false, true⟩]
      enumerators := [⟨"field", 0⟩] },
    { name := "struct", kind := .struct, size := 1, aliases := [], fields := []
      enumerators := [] }]

theorem parse_print_misleading : misleading.Listable ∧ parse (print misleading) = misleading := by
  have h : misleading.Listable := by decide +kernel
  exact ⟨h, parse_print h⟩

example :
    print ⟨some 8,
        [⟨"point", .struct, 8, ["point_t"], [⟨"x", "int", 0, 0, 0, false, false⟩], []⟩,
          ⟨"color", .enum, 4, [], [], [⟨"RED", -1⟩]⟩]⟩ =
      "arch 8\nstruct\nname point\nalias point_t\nsize 8\n" ++
      "field\nname x\ntype int\noffset 0\npdepth 0\narrsize 0\nconst false\nisstruct false\n" ++
      "enum\nname color\nsize 4\nenumerator\nek RED\nev -1\n" := by
  decide +kernel

end Dump

end TypeAtlas
