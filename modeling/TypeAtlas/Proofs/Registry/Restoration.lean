import TypeAtlas.Proofs.Blob.Encoding
import TypeAtlas.Proofs.Registry.Description

/-!
# What a schema's table describes

The records that the table of an encoded schema describes say what the schema says: a type
keeps its name, size and kind, and its members come in order, each with the type that its
definition names. Only fields whose record type the schema does not know are missing.
-/

namespace TypeAtlas

/-- A field that says what a definition says. Its type is the last one of the name. -/
structure FieldDef.Restored (schema : Schema) (copies : Bool) (definition : FieldDef)
    (field : Field) : Prop where
  name : field.name = ⟨definition.name, copies⟩
  offset : field.offset = definition.offset
  arraySize : field.arraySize = definition.arraySize
  pointerDepth : field.pointerDepth = definition.pointerDepth
  isConst : field.isConst = definition.isConst
  known : ∀ position, Schema.LastAt schema.types definition.typeName position →
    field.typeId = ⟨position + 1⟩
  unknown : (∀ ty ∈ schema.types, ty.name ≠ definition.typeName) → field.typeId = .unresolved

structure EnumeratorDef.Restored (copies : Bool) (definition : EnumeratorDef)
    (enumerator : Enumerator) : Prop where
  name : enumerator.name = ⟨definition.name, copies⟩
  value : enumerator.signedValue = definition.value

namespace TypeDef

/-- The members that go with the kind of a type, in order, and none besides. -/
def MembersRestored (schema : Schema) (copies : Bool) (ty : TypeDef) (members : Members) : Prop :=
  match ty.kind with
  | .base => members = .none
  | .struct | .union => ∃ fields, members = .fields fields ∧
      List.Forall₂ (FieldDef.Restored schema copies) (ty.fieldsWithin schema) fields
  | .enum => ∃ enumerators, members = .enumerators enumerators ∧
      List.Forall₂ (EnumeratorDef.Restored copies) ty.enumerators enumerators

structure Restored (schema : Schema) (copies : Bool) (ty : TypeDef) (id : Nat)
    (record : TypeRecord) : Prop where
  id : record.id = ⟨id⟩
  name : record.name = ⟨ty.name, copies⟩
  size : record.size = ty.size
  kind : record.kind = ty.kind
  members : ty.MembersRestored schema copies record.members

end TypeDef

namespace Schema

/-! ## Records of an encoded schema -/

variable {schema : Schema} {table pool : Bytes} {copies : Bool} {ty : TypeDef}

theorem mem_writtenNames (hty : ty ∈ schema.types) {name : String}
    (hname : name ∈ schema.entryNames ty) : name ∈ schema.writtenNames :=
  List.mem_flatMap.mpr ⟨ty, hty, hname⟩

namespace Emitted

/-- Where a name is written no other text is read. -/
theorem name_eq (h : schema.Emitted .host table pool) {name : String}
    (hname : name ∈ schema.writtenNames) {found : Name}
    (htext : Bytes.TextAt (table ++ pool) (schema.nameWord 8 name) found.text)
    (howned : found.owned = copies) : found = ⟨name, copies⟩ := by
  have hwritten := (Bytes.textAt_iff.mp (h.textAt hname)).2
  have hfound := (Bytes.textAt_iff.mp htext).2
  have heq : found.text = name := Option.some.inj (hfound.symm.trans hwritten)
  obtain ⟨text, owned⟩ := found
  simp_all

theorem field_restored (h : schema.Emitted .host table pool) {definition : FieldDef}
    (hname : definition.name ∈ schema.writtenNames) {field : Field}
    (hfield : (schema.tableField 8 definition).Describes (table ++ pool) copies field) :
    definition.Restored schema copies field where
  name := h.name_eq hname hfield.name hfield.owned
  offset := UInt64.toNat_inj.mp hfield.offset
  arraySize := UInt64.toNat_inj.mp hfield.arraySize
  pointerDepth := hfield.pointerDepth
  isConst := by
    rw [hfield.isConst, tableField]
    cases definition.isConst <;> rfl
  known position hlast := by
    have hid := (schema.id?_eq_some_iff definition.typeName).mpr ⟨position, hlast, rfl⟩
    rw [hfield.typeId, tableField, fieldTypeId, hid]
    rfl
  unknown hnone := by
    have hid := (schema.id?_eq_none_iff definition.typeName).mpr hnone
    rw [hfield.typeId, tableField, fieldTypeId, hid]
    rfl

theorem enumerator_restored (h : schema.Emitted .host table pool) {definition : EnumeratorDef}
    (hname : definition.name ∈ schema.writtenNames) {enumerator : Enumerator}
    (henumerator : (schema.tableEnumerator 8 definition).Describes (table ++ pool) copies
      enumerator) : definition.Restored copies enumerator where
  name := h.name_eq hname henumerator.name henumerator.owned
  value := by
    have hword : enumerator.value.toNat = definition.value.toUInt64.toNat := by
      have hnumber := Target.toNat_toUInt64_mod .host definition.value
      rw [henumerator.value]
      exact hnumber.symm.trans (Nat.mod_eq_of_lt definition.value.toUInt64.toNat_lt)
    rw [Enumerator.signedValue, UInt64.toNat_inj.mp hword, Int64.toInt64_toUInt64]

theorem members_restored (h : schema.Emitted .host table pool) (hty : ty ∈ schema.types)
    {members : Members}
    (hmembers : (schema.tableShape 8 ty).Describes (table ++ pool) copies members) :
    ty.MembersRestored schema copies members := by
  have hfields : ∀ fields, (ty.kind = .struct ∨ ty.kind = .union) →
      List.Forall₂ (TableField.Describes (table ++ pool) copies)
        ((ty.fieldsWithin schema).map (schema.tableField 8)) fields →
      List.Forall₂ (FieldDef.Restored schema copies) (ty.fieldsWithin schema) fields := by
    intro fields hkind hdescribes
    rw [List.forall₂_map_left_iff] at hdescribes
    have hlisted := (List.forall₂_and_left _ _).mpr ⟨fun _ hmem => hmem, hdescribes⟩
    apply hlisted.imp
    intro definition field hpair
    obtain ⟨hmem, hfield⟩ := hpair
    apply h.field_restored _ hfield
    apply mem_writtenNames hty
    unfold entryNames
    rcases hkind with hkind | hkind
    all_goals
      rw [hkind]
      exact List.mem_cons_of_mem _ (List.mem_map_of_mem hmem)
  unfold TypeDef.MembersRestored
  unfold tableShape at hmembers
  cases hkind : ty.kind with
  | base =>
      rw [hkind] at hmembers
      cases hmembers
      rfl
  | struct =>
      rw [hkind] at hmembers
      cases hmembers with
      | struct hdescribes => exact ⟨_, rfl, hfields _ (.inl hkind) hdescribes⟩
  | union =>
      rw [hkind] at hmembers
      cases hmembers with
      | union hdescribes => exact ⟨_, rfl, hfields _ (.inr hkind) hdescribes⟩
  | enum =>
      rw [hkind] at hmembers
      cases hmembers with
      | enum hdescribes =>
          rw [List.forall₂_map_left_iff] at hdescribes
          have hlisted := (List.forall₂_and_left _ _).mpr ⟨fun _ hmem => hmem, hdescribes⟩
          refine ⟨_, rfl, hlisted.imp ?_⟩
          intro definition enumerator hpair
          obtain ⟨hmem, henumerator⟩ := hpair
          apply h.enumerator_restored _ henumerator
          apply mem_writtenNames hty
          unfold entryNames
          rw [hkind]
          exact List.mem_cons_of_mem _ (List.mem_map_of_mem hmem)

theorem type_restored (h : schema.Emitted .host table pool) (hty : ty ∈ schema.types)
    {id : Nat} {record : TypeRecord}
    (hrecord : (schema.tableEntry 8 ty id).Describes (table ++ pool) copies record) :
    ty.Restored schema copies id record where
  id := by rw [hrecord.whole, TypeRecord.id_ofMembers]; rfl
  name := h.name_eq (mem_writtenNames hty List.mem_cons_self) hrecord.name hrecord.owned
  size := UInt64.toNat_inj.mp hrecord.size
  kind := by
    rw [hrecord.whole, TypeRecord.kind_ofMembers, tableEntry, tableShape]
    cases ty.kind <;> rfl
  members := h.members_restored hty hrecord.members

/-- The records that the table describes, one for each type in order, restore the types. -/
theorem types_restored (h : schema.Emitted .host table pool) {records : List TypeRecord}
    (hrecords : List.Forall₂ (TableEntry.Describes (table ++ pool) copies)
      (schema.typeTable 8).entries records) :
    List.Forall₂ (fun numbered record => numbered.1.Restored schema copies (numbered.2 + 1) record)
      schema.types.zipIdx records := by
  rw [typeTable, List.forall₂_map_left_iff] at hrecords
  have hlisted := (List.forall₂_and_left _ _).mpr ⟨fun _ hmem => hmem, hrecords⟩
  apply hlisted.imp
  intro numbered record hpair
  obtain ⟨hmem, hrecord⟩ := hpair
  exact h.type_restored (List.fst_mem_of_mem_zipIdx hmem) hrecord

end Emitted

end Schema

end TypeAtlas
