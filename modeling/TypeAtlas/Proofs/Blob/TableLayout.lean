import Mathlib.Algebra.Order.BigOperators.Group.List
import Mathlib.Algebra.Order.Group.Nat
import TypeAtlas.Proofs.Blob.Emission
import TypeAtlas.Proofs.Schema.Ids

/-!
# The table of a schema

The items of a schema make the bytes of its type table, and take the length that was planned
for them. Nothing here depends on whether the numbers fit: a number that needs more bytes than
a word has is cut the same way on both sides.
-/

namespace TypeAtlas.Schema

/-! ## Fields that are kept -/

theorem resolve?_eq (schema : Schema) (field : FieldDef) :
    schema.resolve? field =
      if field.isRecord && schema.types.all fun other => other.name != field.typeName then none
      else some (schema.fieldTypeId field) := by
  have hall : (schema.types.all fun other => other.name != field.typeName) =
      (schema.id? field.typeName).isNone := by
    rw [Bool.eq_iff_iff, List.all_eq_true, Option.isNone_iff_eq_none, id?_eq_none_iff]
    simp only [bne_iff_ne]
  rw [hall, resolve?, fieldTypeId]
  cases schema.id? field.typeName <;> simp

/-- The fields that are kept are those of a type within the schema, each under its type's id. -/
theorem keptFields_eq (schema : Schema) (ty : TypeDef) :
    schema.keptFields ty =
      (ty.fieldsWithin schema).map fun field => (field, schema.fieldTypeId field) := by
  unfold keptFields TypeDef.fieldsWithin
  induction ty.fields with
  | nil => rfl
  | cons field rest ih =>
      rw [List.filterMap_cons, ih, resolve?_eq, List.filter_cons]
      cases field.isRecord && schema.types.all fun other => other.name != field.typeName <;> rfl

theorem length_keptFields (schema : Schema) (ty : TypeDef) :
    (schema.keptFields ty).length = (ty.fieldsWithin schema).length := by
  rw [keptFields_eq, List.length_map]

theorem fieldTypeId_le (schema : Schema) (field : FieldDef) :
    schema.fieldTypeId field ≤ schema.types.length := by
  unfold fieldTypeId
  cases hid : schema.id? field.typeName with
  | none => exact Nat.zero_le _
  | some id => exact schema.id?_le _ hid

/-! ## Bytes -/

theorem flatMap_fieldItems (schema : Schema) (target : Target) (field : FieldDef) :
    (fieldItems (field, schema.fieldTypeId field)).flatMap
        (Item.toBytes target (schema.nameWord target.width.bytes)) =
      (schema.tableField target.width.bytes field).toBytes target := by
  simp [fieldItems, Item.toBytes, tableField, TableField.toBytes]

theorem flatMap_enumeratorItems (schema : Schema) (target : Target) (enumerator : EnumeratorDef) :
    (enumeratorItems enumerator).flatMap
        (Item.toBytes target (schema.nameWord target.width.bytes)) =
      (schema.tableEnumerator target.width.bytes enumerator).toBytes target := by
  simp [enumeratorItems, Item.toBytes, tableEnumerator, TableEnumerator.toBytes,
    Target.signedNumber]

theorem flatMap_memberItems (schema : Schema) (target : Target) (ty : TypeDef) :
    (schema.memberItems ty).flatMap (Item.toBytes target (schema.nameWord target.width.bytes)) =
      (schema.tableShape target.width.bytes ty).toBytes target := by
  unfold memberItems tableShape
  rw [keptFields_eq]
  cases ty.kind <;>
    simp [Item.toBytes, TableShape.toBytes, List.flatMap_assoc, List.flatMap_map,
      flatMap_fieldItems, flatMap_enumeratorItems]

theorem flatMap_entryItems (schema : Schema) (target : Target) (ty : TypeDef) (id : Nat) :
    (schema.entryItems ty id).flatMap (Item.toBytes target (schema.nameWord target.width.bytes)) =
      (schema.tableEntry target.width.bytes ty id).toBytes target := by
  have hkind : (schema.tableShape target.width.bytes ty).kind = ty.kind := by
    unfold tableShape
    cases ty.kind <;> rfl
  simp only [entryItems, List.flatMap_cons, flatMap_memberItems]
  simp [Item.toBytes, tableEntry, TableEntry.toBytes, hkind]

theorem flatMap_entriesFrom (schema : Schema) (target : Target) (types : List TypeDef)
    (position : Nat) :
    (schema.entriesFrom (position + 1) types).flatMap
        (Item.toBytes target (schema.nameWord target.width.bytes)) =
      (types.zipIdx position).flatMap fun numbered =>
        (schema.tableEntry target.width.bytes numbered.1 (numbered.2 + 1)).toBytes target := by
  induction types generalizing position with
  | nil => rfl
  | cons ty rest ih =>
      rw [entriesFrom, List.flatMap_append, flatMap_entryItems, ih, List.zipIdx_cons,
        List.flatMap_cons]

/-- The items of a schema make its type table. -/
theorem flatMap_items (schema : Schema) (target : Target) :
    schema.items.flatMap (Item.toBytes target (schema.nameWord target.width.bytes)) =
      (schema.typeTable target.width.bytes).toBytes target := by
  rw [items, List.flatMap_cons, flatMap_entriesFrom]
  simp [Item.toBytes, TypeTable.toBytes, typeTable, List.flatMap_map, size]

/-! ## Names -/

theorem filterMap_name?_entryItems (schema : Schema) (ty : TypeDef) (id : Nat) :
    (schema.entryItems ty id).filterMap Item.name? = schema.entryNames ty := by
  have hfields : ∀ fields : List FieldDef,
      (fields.flatMap fun field =>
        fieldItems (field, schema.fieldTypeId field)).filterMap Item.name? =
          fields.map (·.name) := by
    intro fields
    induction fields with
    | nil => rfl
    | cons first rest ih =>
        rw [List.flatMap_cons, List.filterMap_append, ih]
        rfl
  have henumerators : ∀ enumerators : List EnumeratorDef,
      (enumerators.flatMap enumeratorItems).filterMap Item.name? = enumerators.map (·.name) := by
    intro enumerators
    induction enumerators with
    | nil => rfl
    | cons first rest ih => simp [enumeratorItems, List.filterMap_cons, Item.name?, ih]
  unfold entryItems memberItems entryNames
  rw [keptFields_eq]
  cases ty.kind <;>
    simp [List.filterMap_cons, Item.name?, List.flatMap_map, hfields, henumerators]

/-- The names of the items are those that the schema writes. -/
theorem filterMap_name?_items (schema : Schema) :
    schema.items.filterMap Item.name? = schema.writtenNames := by
  have hentries : ∀ (types : List TypeDef) (id : Nat),
      (schema.entriesFrom id types).filterMap Item.name? = types.flatMap schema.entryNames := by
    intro types
    induction types with
    | nil => intro id; rfl
    | cons ty rest ih =>
        intro id
        rw [entriesFrom, List.filterMap_append, filterMap_name?_entryItems, ih,
          List.flatMap_cons]
  simp [items, List.filterMap_cons, Item.name?, hentries, writtenNames]

/-! ## Lengths -/

theorem length_tableField (target : Target) (field : TableField) :
    (field.toBytes target).length = 4 * target.width.bytes + 1 + 4 := by
  simp [TableField.toBytes]
  omega

theorem length_tableEnumerator (target : Target) (enumerator : TableEnumerator) :
    (enumerator.toBytes target).length = 2 * target.width.bytes := by
  simp [TableEnumerator.toBytes]
  omega

theorem length_tableEntry (schema : Schema) (target : Target) (ty : TypeDef) (id : Nat) :
    ((schema.tableEntry target.width.bytes ty id).toBytes target).length =
      schema.entryLength target.width.bytes ty := by
  unfold tableEntry TableEntry.toBytes tableShape entryLength
  cases ty.kind <;>
    simp [TableShape.toBytes, List.length_flatMap, length_tableField,
      length_tableEnumerator, Function.comp_def] <;>
    omega

/-- The table takes the length that is counted for it. -/
theorem length_typeTable (schema : Schema) (target : Target) :
    ((schema.typeTable target.width.bytes).toBytes target).length =
      schema.tableLength target.width.bytes := by
  have hentries : ∀ (types : List TypeDef) (position : Nat),
      ((types.zipIdx position).flatMap fun numbered =>
        (schema.tableEntry target.width.bytes numbered.1 (numbered.2 + 1)).toBytes target).length =
      (types.map (schema.entryLength target.width.bytes)).foldr (· + ·) 0 := by
    intro types
    induction types with
    | nil => intro position; rfl
    | cons ty rest ih =>
        intro position
        rw [List.zipIdx_cons, List.flatMap_cons, List.length_append, length_tableEntry, ih,
          List.map_cons, List.foldr_cons]
  simp [TypeTable.toBytes, typeTable, List.flatMap_map, hentries, tableLength]

/-! ## The plan -/

theorem plannedEntry_eq (schema : Schema) (width : Nat) (ty : TypeDef) :
    schema.plannedEntry (UInt64.ofNat width) ty = UInt64.ofNat (schema.entryLength width ty) := by
  unfold plannedEntry entryLength
  rw [length_keptFields]
  cases ty.kind <;> simp [UInt64.mul_assoc, UInt64.add_assoc]

/-- The plan is the counted length, as a machine word shows it. -/
theorem plannedLength_eq (schema : Schema) (width : Nat) :
    schema.plannedLength (UInt64.ofNat width) = UInt64.ofNat (schema.tableLength width) := by
  have hsum : ∀ (types : List TypeDef) (start : Nat),
      (types.map (schema.plannedEntry (UInt64.ofNat width))).foldl (· + ·) (UInt64.ofNat start) =
        UInt64.ofNat (start + (types.map (schema.entryLength width)).foldr (· + ·) 0) := by
    intro types
    induction types with
    | nil => intro start; simp
    | cons ty rest ih =>
        intro start
        rw [List.map_cons, List.foldl_cons, plannedEntry_eq, ← UInt64.ofNat_add, ih,
          List.map_cons, List.foldr_cons, Nat.add_assoc]
  have hall := hsum schema.types 0
  rw [Nat.zero_add] at hall
  rw [plannedLength, tableLength, UInt64.ofNat_add, ← hall]
  rfl

/-- The word for a name counts from the front of the table to its place in the pool. -/
theorem nameNumber_plannedLength (schema : Schema) (width : Nat) (name : String) :
    Target.nameNumber (schema.plannedLength (UInt64.ofNat width)) schema.writtenNames name =
      (UInt64.ofNat (schema.nameWord width name)).toNat := by
  rw [Target.nameNumber, plannedLength_eq, ← UInt64.ofNat_add]
  rfl

/-- When all items are written, every name has the word that the layout gives it. -/
theorem nameNumber_items (schema : Schema) (width : Nat) :
    Target.nameNumber (schema.plannedLength (UInt64.ofNat width))
        ([] ++ schema.items.filterMap Item.name?) =
      fun name => (UInt64.ofNat (schema.nameWord width name)).toNat := by
  funext name
  rw [List.nil_append, filterMap_name?_items, nameNumber_plannedLength]

/-! ## Bounds -/

theorem entryLength_le (schema : Schema) (width : Nat) {ty : TypeDef} (h : ty ∈ schema.types) :
    schema.entryLength width ty ≤ schema.tableLength width := by
  have hle : schema.entryLength width ty ≤
      (schema.types.map (schema.entryLength width)).foldr (· + ·) 0 :=
    List.le_sum_of_mem (List.mem_map_of_mem h)
  unfold tableLength
  omega

theorem length_types_le (schema : Schema) (width : Nat) :
    schema.types.length ≤ schema.tableLength width := by
  have hpos : ∀ n ∈ schema.types.map (schema.entryLength width), 0 < n := by
    intro n hmem
    obtain ⟨ty, -, rfl⟩ := List.mem_map.mp hmem
    unfold entryLength
    omega
  have hle : (schema.types.map (schema.entryLength width)).length ≤
      (schema.types.map (schema.entryLength width)).foldr (· + ·) 0 :=
    List.length_le_sum_of_one_le _ hpos
  rw [List.length_map] at hle
  unfold tableLength
  omega

theorem length_fieldsWithin_le (schema : Schema) (width : Nat) {ty : TypeDef}
    (h : ty ∈ schema.types) (hkind : ty.kind = .struct ∨ ty.kind = .union) :
    (ty.fieldsWithin schema).length ≤ schema.tableLength width := by
  have hle := schema.entryLength_le width h
  have hmul : (ty.fieldsWithin schema).length ≤
      (ty.fieldsWithin schema).length * (4 * width + 1 + 4) :=
    Nat.le_mul_of_pos_right _ (by omega)
  unfold entryLength at hle
  rcases hkind with hkind | hkind <;> simp only [hkind] at hle <;> omega

theorem length_enumerators_le (schema : Schema) {width : Nat} (hwidth : 0 < width) {ty : TypeDef}
    (h : ty ∈ schema.types) (hkind : ty.kind = .enum) :
    ty.enumerators.length ≤ schema.tableLength width := by
  have hle := schema.entryLength_le width h
  have hmul : ty.enumerators.length ≤ ty.enumerators.length * (2 * width) :=
    Nat.le_mul_of_pos_right _ (by omega)
  unfold entryLength at hle
  simp only [hkind] at hle
  omega

end TypeAtlas.Schema
