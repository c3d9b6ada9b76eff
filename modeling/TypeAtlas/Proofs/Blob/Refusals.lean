import Mathlib.Tactic.MkIffOfInductiveProp
import TypeAtlas.Blob.Requirement
import TypeAtlas.Proofs.Blob.Encoding

/-!
# When a schema is refused

An encoding fails exactly when something that the schema asks of its target is not met, and
reports the first such thing in the order of the table. Each step of an emission is related to
the requirements that it tests; a run tests those of its items one behind the other.
-/

namespace TypeAtlas

namespace Requirement

variable {width : WordWidth}

theorem firstUnmet?_eq_none_iff {requirements : List Requirement} :
    firstUnmet? width requirements = none ↔
      ∀ requirement ∈ requirements, requirement.Met width := by
  simp [firstUnmet?, List.find?_eq_none]

theorem firstUnmet?_eq_some_iff {requirements : List Requirement} {first : Requirement} :
    firstUnmet? width requirements = some first ↔
      ∃ before after, requirements = before ++ first :: after ∧
        (∀ earlier ∈ before, earlier.Met width) ∧ ¬ first.Met width := by
  rw [firstUnmet?, List.find?_eq_some_iff_append]
  constructor
  · intro h
    obtain ⟨hunmet, before, after, hsplit, hbefore⟩ := h
    exact ⟨before, after, hsplit, by simpa using hbefore, by simpa using hunmet⟩
  · intro h
    obtain ⟨before, after, hsplit, hbefore, hunmet⟩ := h
    exact ⟨by simpa using hunmet, before, after, hsplit, by simpa using hbefore⟩

/-! ## Steps that test requirements -/

/-- The step fails exactly when one of the requirements is not met, and then with the fault of
the first that is not. -/
def Guards (width : WordWidth) (requirements : List Requirement) (step : Except BlobError α) :
    Prop :=
  Outcome.fault? step = (firstUnmet? width requirements).map fault

theorem guards_ok (value : α) : Guards width [] (.ok value) := rfl

theorem guards_of_met {requirement : Requirement} (h : requirement.Met width) (value : α) :
    Guards width [requirement] (.ok value) := by
  simp [Guards, firstUnmet?, Outcome.fault?, h]

theorem guards_of_not_met {requirement : Requirement} (h : ¬ requirement.Met width) :
    Guards width [requirement] (.error requirement.fault : Except BlobError α) := by
  simp [Guards, firstUnmet?, Outcome.fault?, h]

/-- A test that decides a requirement. -/
theorem guards_ite {requirement : Requirement} {c : Prop} [Decidable c] {value : α}
    {report : BlobError} (hmet : c ↔ requirement.Met width)
    (hreport : ¬ requirement.Met width → report = requirement.fault) :
    Guards width [requirement] (if c then .ok value else .error report) := by
  by_cases hc : c
  · rw [if_pos hc]
    exact guards_of_met (hmet.mp hc) value
  · have hunmet := mt hmet.mpr hc
    rw [if_neg hc, hreport hunmet]
    exact guards_of_not_met hunmet

theorem Guards.map {requirements : List Requirement} {step : Except BlobError α}
    (h : Guards width requirements step) (f : α → β) :
    Guards width requirements (step.map f) := by
  rw [Guards, Outcome.fault?_map, h]

/-- Steps in a row test their requirements in a row. -/
theorem Guards.bind {front behind : List Requirement} {step : Except BlobError α}
    {next : α → Except BlobError β} (h : Guards width front step)
    (hnext : ∀ value, step = .ok value → Guards width behind (next value)) :
    Guards width (front ++ behind) (step >>= next) := by
  rw [Guards, firstUnmet?, List.find?_append, Option.map_or, ← firstUnmet?, ← firstUnmet?, ← h]
  cases step with
  | error fault => rfl
  | ok value => exact hnext value rfl

end Requirement

open Requirement

/-! ## What an item asks for -/

/-- What is tested when an item is written, once every name has its number. -/
def Item.requirements (number : String → Nat) : Item → List Requirement
  | byte _ | flag _ | half _ => []
  | word value => [.fits value]
  | signed value => [.fitsSigned value]
  | name text => [.plain text, .fits (UInt64.ofNat (number text))]

theorem StringPool.Holds.guards_intern {pool : StringPool} {used : List String}
    (h : pool.Holds used) (width : WordWidth) (text : String) :
    Guards width [.plain text] (pool.intern text) := by
  have hlookup := h.lookup text
  unfold StringPool.intern
  by_cases hmem : text ∈ used
  · rw [if_pos hmem] at hlookup
    rw [hlookup]
    have hplain : (Requirement.plain text).Met width := h.plain text hmem
    exact guards_of_met hplain _
  · rw [if_neg hmem] at hlookup
    rw [hlookup]
    by_cases hplain : (Requirement.plain text).Met width
    · simp only [if_neg hplain]
      exact guards_of_met hplain _
    · simp only [if_pos (not_not.mp hplain)]
      exact guards_of_not_met hplain

namespace Target

theorem guards_word (target : Target) (value : UInt64) :
    Guards target.width [.fits value] (target.word value) := by
  have hmet : value.toNat < Bytes.wordCount target.width.bytes ↔
      (Requirement.fits value).Met target.width := by
    rw [target.width.wordCount_eq, Met]
    cases target.width with
    | four => simp
    | eight => simpa using value.toNat_lt
  apply guards_ite hmet
  intro hunmet
  simp only [Met, Classical.not_imp] at hunmet
  rw [hunmet.1]
  rfl

theorem guards_signedWord (target : Target) (value : Int64) :
    Guards target.width [.fitsSigned value] (target.signedWord value) := by
  obtain ⟨width, order⟩ := target
  cases width with
  | four => exact guards_ite (by simp [fitsFour, Met]) fun _ => rfl
  | eight =>
      have hmet : (Requirement.fitsSigned value).Met .eight := by simp [Met]
      exact guards_of_met hmet _

theorem guards_emitItem (target : Target) (tableLength : UInt64) {pool : StringPool}
    {used : List String} (h : pool.Holds used) (item : Item) :
    Guards target.width
      (item.requirements (nameNumber tableLength (used ++ item.name?.toList)))
      (target.emitItem tableLength pool item) := by
  cases item with
  | byte value => exact guards_ok _
  | flag value => exact guards_ok _
  | half value => exact guards_ok _
  | word value => exact (target.guards_word value).map _
  | signed value => exact (target.guards_signedWord value).map _
  | name text =>
      apply (h.guards_intern target.width text).bind
      intro ⟨offset, next⟩ hintern
      obtain ⟨-, hoffset⟩ := h.intern hintern
      have hword : tableLength + UInt64.ofNat offset =
          UInt64.ofNat (nameNumber tableLength (used ++ [text]) text) := by
        rw [hoffset, nameNumber, UInt64.ofNat_toNat]
      simp only [hword]
      exact (target.guards_word _).map _

/-- A run of items tests what its items ask for, each under the numbers that the names have in
the end. -/
theorem guards_emit (target : Target) (tableLength : UInt64) {pool : StringPool}
    {used : List String} (h : pool.Holds used) (items : List Item) :
    Guards target.width
      (items.flatMap
        (Item.requirements (nameNumber tableLength (used ++ items.filterMap Item.name?))))
      (target.emit tableLength pool items) := by
  induction items generalizing pool used with
  | nil => exact guards_ok _
  | cons item rest ih =>
      -- The name of an item has its number as soon as it is interned.
      have hitem : item.requirements
            (nameNumber tableLength (used ++ item.name?.toList ++ rest.filterMap Item.name?)) =
          item.requirements (nameNumber tableLength (used ++ item.name?.toList)) := by
        cases item with
        | name text =>
            simp only [Item.requirements, Item.name?, Option.toList_some,
              nameNumber_concat_append]
        | _ => rfl
      rw [Item.append_names_cons, List.flatMap_cons, hitem]
      apply (target.guards_emitItem tableLength h item).bind
      intro emitted hemitted
      obtain ⟨hnext, -⟩ := emitItem_eq_ok h hemitted
      exact (ih hnext).map _

end Target

namespace Schema

/-! ## What a schema asks for -/

section Items

variable {schema : Schema} {width : WordWidth} {number : String → Nat}
  (h : ∀ name, UInt64.ofNat (number name) = UInt64.ofNat (schema.nameWord width.bytes name))

include h

theorem requirements_fieldItems (field : FieldDef) :
    (fieldItems (field, schema.fieldTypeId field)).flatMap (Item.requirements number) =
      schema.fieldRequirements width field := by
  simp [fieldItems, Item.requirements, fieldRequirements, nameRequirements, h]

theorem requirements_enumeratorItems (enumerator : EnumeratorDef) :
    (enumeratorItems enumerator).flatMap (Item.requirements number) =
      schema.enumeratorRequirements width enumerator := by
  simp [enumeratorItems, Item.requirements, enumeratorRequirements, nameRequirements, h]

theorem requirements_memberItems (ty : TypeDef) :
    (schema.memberItems ty).flatMap (Item.requirements number) =
      schema.memberRequirements width ty := by
  unfold memberItems memberRequirements
  rw [keptFields_eq]
  cases ty.kind <;>
    simp [Item.requirements, List.flatMap_assoc, List.flatMap_map, requirements_fieldItems h,
      requirements_enumeratorItems h]

theorem requirements_entryItems (ty : TypeDef) (id : Nat) :
    (schema.entryItems ty id).flatMap (Item.requirements number) =
      schema.entryRequirements width ty id := by
  simp [entryItems, entryRequirements, Item.requirements, nameRequirements, h,
    requirements_memberItems h]

theorem requirements_entriesFrom (types : List TypeDef) (position : Nat) :
    (schema.entriesFrom (position + 1) types).flatMap (Item.requirements number) =
      (types.zipIdx position).flatMap fun numbered =>
        schema.entryRequirements width numbered.1 (numbered.2 + 1) := by
  induction types generalizing position with
  | nil => rfl
  | cons ty rest ih =>
      rw [entriesFrom, List.flatMap_append, requirements_entryItems h, ih, List.zipIdx_cons,
        List.flatMap_cons]

theorem requirements_items :
    schema.items.flatMap (Item.requirements number) = schema.requirements width := by
  rw [items, List.flatMap_cons, requirements_entriesFrom h]
  simp [Item.requirements, requirements, size]

end Items

/-- An encoding tests what the schema asks for. -/
theorem guards_encode (schema : Schema) (target : Target) (framed : Bool) :
    Guards target.width (schema.requirements target.width)
      (schema.encode (target.options framed)) := by
  have htarget : Target.ofOptions (target.options framed) = .ok target :=
    Target.ofOptions_eq_ok_iff.mpr ⟨rfl, rfl⟩
  have hemit := target.guards_emit (schema.plannedLength (UInt64.ofNat target.width.bytes))
    StringPool.holds_empty schema.items
  rw [nameNumber_items, requirements_items fun _ => UInt64.ofNat_toNat] at hemit
  unfold encode encodeParts
  rw [htarget]
  exact (hemit.map _).map _

/-! ## Writable schemas -/

/-- A property of all that the entry of a type asks for, its id apart. -/
@[mk_iff]
structure EntryAsks (schema : Schema) (width : WordWidth) (P : Requirement → Prop)
    (ty : TypeDef) : Prop where
  names : ∀ name ∈ schema.entryNames ty,
    P (.plain name) ∧ P (.fits (UInt64.ofNat (schema.nameWord width.bytes name)))
  size : P (.fits ty.size)
  fieldCount : ty.kind.hasFields → P (.fits (UInt64.ofNat (ty.fieldsWithin schema).length))
  fields : ty.kind.hasFields → ∀ field ∈ ty.fieldsWithin schema,
    P (.fits field.offset) ∧ P (.fits field.arraySize) ∧
      P (.fits (UInt64.ofNat (schema.fieldTypeId field)))
  enumeratorCount : ty.kind = .enum → P (.fits (UInt64.ofNat ty.enumerators.length))
  values : ty.kind = .enum → ∀ enumerator ∈ ty.enumerators, P (.fitsSigned enumerator.value)

section Asks

variable {schema : Schema} {width : WordWidth} {P : Requirement → Prop}

theorem forall_mem_entryRequirements {ty : TypeDef} {id : Nat} :
    (∀ requirement ∈ schema.entryRequirements width ty id, P requirement) ↔
      P (.fits (UInt64.ofNat id)) ∧ schema.EntryAsks width P ty := by
  rw [entryAsks_iff]
  unfold entryRequirements memberRequirements entryNames
  cases ty.kind <;>
    simp only [TypeKind.hasFields, fieldRequirements, enumeratorRequirements, nameRequirements,
      List.forall_mem_cons, List.forall_mem_append, List.forall_mem_flatMap,
      List.forall_mem_map] <;>
    grind

theorem forall_mem_requirements_iff_entries :
    (∀ requirement ∈ schema.requirements width, P requirement) ↔
      P (.fits (UInt64.ofNat schema.types.length)) ∧
      (∀ position < schema.types.length, P (.fits (UInt64.ofNat (position + 1)))) ∧
      ∀ ty ∈ schema.types, schema.EntryAsks width P ty := by
  rw [requirements, List.forall_mem_cons, List.forall_mem_flatMap]
  simp only [forall_mem_entryRequirements]
  constructor
  · intro h
    obtain ⟨hcount, hentries⟩ := h
    refine ⟨hcount, ?_, ?_⟩
    · intro position hposition
      have hin : (schema.types[position], position) ∈ schema.types.zipIdx :=
        List.mem_zipIdx_iff_getElem?.mpr (List.getElem?_eq_getElem hposition)
      exact (hentries _ hin).1
    · intro ty hmem
      obtain ⟨position, hposition⟩ := List.getElem?_of_mem hmem
      exact (hentries (ty, position) (List.mem_zipIdx_iff_getElem?.mpr hposition)).2
  · intro h
    obtain ⟨hcount, hids, hentries⟩ := h
    refine ⟨hcount, ?_⟩
    intro ⟨ty, position⟩ hin
    exact ⟨hids position (List.mem_zipIdx' hin).1, hentries ty (List.fst_mem_of_mem_zipIdx hin)⟩

/-- What a schema asks for, sorted by what it is asked of. -/
theorem forall_mem_requirements :
    (∀ requirement ∈ schema.requirements width, P requirement) ↔
      (∀ name ∈ schema.writtenNames, P (.plain name)) ∧
      schema.EveryNumber width (fun number => P (.fits (UInt64.ofNat number))) ∧
      ∀ ty ∈ schema.types, ty.kind = .enum →
        ∀ enumerator ∈ ty.enumerators, P (.fitsSigned enumerator.value) := by
  rw [forall_mem_requirements_iff_entries]
  constructor
  · intro h
    obtain ⟨hcount, hids, hentries⟩ := h
    have hnames : ∀ name ∈ schema.writtenNames,
        P (.plain name) ∧ P (.fits (UInt64.ofNat (schema.nameWord width.bytes name))) := by
      intro name hwritten
      obtain ⟨ty, hmem, hname⟩ := List.mem_flatMap.mp hwritten
      exact (hentries ty hmem).names name hname
    refine ⟨fun name hname => (hnames name hname).1, ?_, fun ty hmem => (hentries ty hmem).values⟩
    constructor
    · exact hcount
    · exact hids
    · exact fun name hname => (hnames name hname).2
    · intro ty hmem
      simpa using (hentries ty hmem).size
    · exact fun ty hmem => (hentries ty hmem).fieldCount
    · intro ty hmem
      simpa using (hentries ty hmem).fields
    · exact fun ty hmem => (hentries ty hmem).enumeratorCount
  · intro h
    obtain ⟨hplain, hnumbers, hvalues⟩ := h
    refine ⟨hnumbers.typeCount, hnumbers.ids, ?_⟩
    intro ty hmem
    constructor
    · intro name hname
      have hwritten : name ∈ schema.writtenNames := List.mem_flatMap.mpr ⟨ty, hmem, hname⟩
      exact ⟨hplain name hwritten, hnumbers.names name hwritten⟩
    · simpa using hnumbers.sizes ty hmem
    · exact hnumbers.fieldCounts ty hmem
    · simpa using hnumbers.fields ty hmem
    · exact hnumbers.enumeratorCounts ty hmem
    · exact hvalues ty hmem

end Asks

/-- A schema is writable when all that it asks for is met. -/
theorem writable_iff {schema : Schema} {width : WordWidth} :
    schema.Writable width ↔
      ∀ requirement ∈ schema.requirements width, requirement.Met width := by
  rw [forall_mem_requirements]
  cases width with
  | four =>
      constructor
      · intro h
        exact ⟨h.plain, by simpa [Met] using h.words, by simpa [Met] using h.values⟩
      · intro h
        exact ⟨h.1, by simpa [Met] using h.2.1, by simpa [Met] using h.2.2⟩
  | eight =>
      constructor
      · intro h
        exact ⟨h.plain, by constructor <;> simp [Met], by simp [Met]⟩
      · intro h
        exact ⟨h.1, nofun, nofun⟩

/-! ## Machine words are exact -/

/-- The numbers of a schema whose payload a host can hold lose nothing in machine words. -/
theorem everyNumber_exact {schema : Schema} {width : WordWidth}
    (h : schema.tableLength width.bytes + schema.poolBytes.length < UInt64.size) :
    schema.EveryNumber width fun number => (UInt64.ofNat number).toNat = number := by
  have hexact : ∀ number, number ≤ schema.tableLength width.bytes →
      (UInt64.ofNat number).toNat = number := by
    intro number hle
    exact UInt64.toNat_ofNat_of_lt' (by omega)
  have htypes := schema.length_types_le width.bytes
  have hwidth : 0 < width.bytes := by cases width <;> decide
  constructor
  · exact hexact _ htypes
  · intro position hposition
    exact hexact _ (by omega)
  · intro name _
    have hplace : schema.poolOffset name ≤ schema.poolBytes.length :=
      placeIn_le schema.writtenNames.eraseDups name
    exact UInt64.toNat_ofNat_of_lt' ((Nat.add_le_add_left hplace _).trans_lt h)
  · simp
  · intro ty hmem hkind
    have hrecord : ty.kind = .struct ∨ ty.kind = .union := by
      cases hty : ty.kind <;> simp [hty, TypeKind.hasFields] at hkind ⊢
    exact hexact _ (schema.length_fieldsWithin_le width.bytes hmem hrecord)
  · intro ty hmem hkind field hfield
    have hid := schema.fieldTypeId_le field
    exact ⟨by simp, by simp, hexact _ (hid.trans htypes)⟩
  · intro ty hmem hkind
    exact hexact _ (schema.length_enumerators_le hwidth hmem hkind)

/-- The second part fixes the report: it is that of the first requirement, in the order of the
table, that is not met. The numbers that are compared are those of machine words; by the third
part they are the documented ones as long as a host can hold the payload. -/
theorem encode_fails_at_first_unmet (schema : Schema) (target : Target) (framed : Bool) :
    ((∃ bytes, schema.encode (target.options framed) = .ok bytes) ↔
      schema.Writable target.width) ∧
    (∀ report, schema.encode (target.options framed) = .error report ↔
      ∃ before first after, schema.requirements target.width = before ++ first :: after ∧
        (∀ earlier ∈ before, earlier.Met target.width) ∧ ¬ first.Met target.width ∧
        report = first.fault) ∧
    (schema.tableLength target.width.bytes + schema.poolBytes.length < UInt64.size →
      schema.EveryNumber target.width fun number => (UInt64.ofNat number).toNat = number) := by
  have hguards := schema.guards_encode target framed
  refine ⟨?_, ?_, everyNumber_exact⟩
  · rw [← Outcome.fault?_eq_none_iff, hguards, Option.map_eq_none_iff, firstUnmet?_eq_none_iff,
      writable_iff]
  · intro report
    rw [← Outcome.fault?_eq_some_iff, hguards, Option.map_eq_some_iff]
    constructor
    · intro h
      obtain ⟨first, hfirst, rfl⟩ := h
      obtain ⟨before, after, hsplit, hbefore, hunmet⟩ := firstUnmet?_eq_some_iff.mp hfirst
      exact ⟨before, first, after, hsplit, hbefore, hunmet, rfl⟩
    · intro h
      obtain ⟨before, first, after, hsplit, hbefore, hunmet, rfl⟩ := h
      exact ⟨first, firstUnmet?_eq_some_iff.mpr ⟨before, after, hsplit, hbefore, hunmet⟩, rfl⟩

/-- A name that cannot be closed is reported before a size that does not fit. -/
example : encode ⟨none, [⟨"a\x00", .base, 4294967296, [], [], []⟩]⟩
    (Target.options ⟨.four, .big⟩ true) = .error (.interiorNul "a\x00") := by
  cbv

end Schema

end TypeAtlas
