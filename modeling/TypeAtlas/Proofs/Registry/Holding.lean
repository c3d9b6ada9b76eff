import TypeAtlas.Proofs.NameIndex.Holding
import TypeAtlas.Proofs.Registry.Members
import TypeAtlas.Registry.Basic

/-!
# How the names of a registry are held

A registry holds names in its index, in its records, in their members and in the indices of these.
To hold all of them as asked changes nothing else: it goes through every step by which a registry
is built, and every look-up answers as before.
-/

namespace TypeAtlas

/-! ## Records -/

def Field.hold (owned : Bool) (field : Field) : Field := { field with name := field.name.hold owned }

def Enumerator.hold (owned : Bool) (enumerator : Enumerator) : Enumerator :=
  { enumerator with name := enumerator.name.hold owned }

def Members.hold (owned : Bool) : Members → Members
  | none => none
  | fields entries => fields (entries.map (Field.hold owned))
  | enumerators entries => enumerators (entries.map (Enumerator.hold owned))

theorem Members.detach_eq_hold (members : Members) : members.detach = members.hold true := by
  cases members <;> rfl

namespace TypeRecord

def hold (owned : Bool) (record : TypeRecord) : TypeRecord :=
  { record with
    name := record.name.hold owned
    members := record.members.hold owned
    memberIndex := record.memberIndex.map (NameIndex.hold owned) }

variable (owned : Bool) (record : TypeRecord)

theorem detach_eq_hold : record.detach = record.hold true := by
  rw [detach, Members.detach_eq_hold]
  rfl

theorem hold_hold (first : Bool) : (record.hold first).hold owned = record.hold owned := by
  obtain ⟨id, name, size, kind, members, memberIndex, capacity⟩ := record
  have hmembers : (members.hold first).hold owned = members.hold owned := by
    cases members <;> simp [Members.hold, Function.comp_def, Field.hold, Enumerator.hold, Name.hold]
  simp [hold, hmembers, Name.hold, Function.comp_def, NameIndex.hold_hold]

/-! ### Building -/

theorem hold_withMembers (id : TypeId) (name : Name) (size : UInt64) (kind : TypeKind)
    (capacity : Nat) : (withMembers id name size kind capacity).hold owned =
      withMembers id (name.hold owned) size kind capacity := by
  cases kind <;> simp [withMembers, hold, Members.emptyFor, Members.hold]

theorem hold_pushField (field : Field) :
    (record.pushField field).2.hold owned =
      ((record.hold owned).pushField (field.hold owned)).2 := by
  obtain ⟨id, name, size, kind, members, memberIndex, capacity⟩ := record
  cases members with
  | none => rfl
  | enumerators entries => rfl
  | fields entries =>
      by_cases hfull : capacity ≤ entries.length
      · simp [pushField, hold, Members.hold, hfull]
      · cases memberIndex <;>
          simp [pushField, hold, Members.hold, hfull, Field.hold, NameIndex.hold_insert]

theorem hold_pushEnumerator (enumerator : Enumerator) :
    (record.pushEnumerator enumerator).2.hold owned =
      ((record.hold owned).pushEnumerator (enumerator.hold owned)).2 := by
  obtain ⟨id, name, size, kind, members, memberIndex, capacity⟩ := record
  cases members with
  | none => rfl
  | fields entries => rfl
  | enumerators entries =>
      by_cases hfull : capacity ≤ entries.length
      · simp [pushEnumerator, hold, Members.hold, hfull]
      · cases memberIndex <;>
          simp [pushEnumerator, hold, Members.hold, hfull, Enumerator.hold, NameIndex.hold_insert]

theorem hold_pushFields (fields : List Field) :
    (record.pushFields fields).hold owned =
      (record.hold owned).pushFields (fields.map (Field.hold owned)) := by
  rw [pushFields, pushFields, List.foldl_map]
  exact (List.foldl_hom (hold owned) fun record field =>
    (hold_pushField owned record field).symm).symm

theorem hold_pushEnumerators (enumerators : List Enumerator) :
    (record.pushEnumerators enumerators).hold owned =
      (record.hold owned).pushEnumerators (enumerators.map (Enumerator.hold owned)) := by
  rw [pushEnumerators, pushEnumerators, List.foldl_map]
  exact (List.foldl_hom (hold owned) fun record enumerator =>
    (hold_pushEnumerator owned record enumerator).symm).symm

/-! ### Look-up -/

theorem fields_hold : (record.hold owned).fields = record.fields.map (Field.hold owned) := by
  obtain ⟨id, name, size, kind, members, memberIndex, capacity⟩ := record
  cases members <;> rfl

theorem enumerators_hold :
    (record.hold owned).enumerators = record.enumerators.map (Enumerator.hold owned) := by
  obtain ⟨id, name, size, kind, members, memberIndex, capacity⟩ := record
  cases members <;> rfl

theorem memberPosition?_hold (name : String) :
    (record.hold owned).memberPosition? name = record.memberPosition? name := by
  cases hindex : record.memberIndex <;> simp [memberPosition?, hold, hindex]

theorem field?_hold (name : String) :
    (record.hold owned).field? name = (record.field? name).map (Field.hold owned) := by
  cases hposition : record.memberPosition? name <;>
    simp [field?, memberPosition?_hold, fields_hold, hposition]

theorem enumerator?_hold (name : String) :
    (record.hold owned).enumerator? name =
      (record.enumerator? name).map (Enumerator.hold owned) := by
  cases hposition : record.memberPosition? name <;>
    simp [enumerator?, memberPosition?_hold, enumerators_hold, hposition]

theorem enumValue?_hold (name : String) :
    (record.hold owned).enumValue? name = record.enumValue? name := by
  have hkind : (record.hold owned).isEnum = record.isEnum := rfl
  rw [enumValue?, enumValue?, hkind, enumerator?_hold, Option.map_map]
  rfl

end TypeRecord

/-! ## Registries -/

namespace Registry

def hold (owned : Bool) (registry : Registry) : Registry :=
  { registry with
    slots := registry.slots.map fun slot => slot.map (TypeRecord.hold owned)
    names := registry.names.hold owned }

variable (owned : Bool) (registry : Registry)

theorem hold_hold (first : Bool) : (registry.hold first).hold owned = registry.hold owned := by
  simp [hold, NameIndex.hold_hold, Function.comp_def, TypeRecord.hold_hold]

theorem detach_eq_hold : registry.detach = registry.hold true := by
  have hrecord : TypeRecord.detach = TypeRecord.hold true := funext TypeRecord.detach_eq_hold
  rw [detach, hrecord]
  rfl

/-! ### Building -/

theorem hold_put (record : TypeRecord) :
    (registry.put record).hold owned = (registry.hold owned).put (record.hold owned) := by
  simp only [put, hold, NameIndex.hold_insert, Array.map_setIfInBounds]
  rfl

theorem hold_foldl_put (records : List TypeRecord) :
    (records.foldl put registry).hold owned =
      (records.map (TypeRecord.hold owned)).foldl put (registry.hold owned) := by
  induction records generalizing registry with
  | nil => rfl
  | cons record rest ih =>
      rw [List.foldl_cons, ih, hold_put]
      rfl

/-- Records may be held as asked before a registry is built of them, or all at once behind. -/
theorem hold_ofRecords (count : Nat) (records : List TypeRecord) (tag : UInt64) :
    (ofRecords count records tag).hold owned =
      ofRecords count (records.map (TypeRecord.hold owned)) tag := by
  have hempty : (withCount count tag).hold owned = withCount count tag := by
    simp [withCount, hold]
  rw [ofRecords, hold_foldl_put, hempty]
  rfl

/-! ### Look-up -/

@[simp] theorem idCapacity_hold : (registry.hold owned).idCapacity = registry.idCapacity := by
  simp [idCapacity, hold]

theorem typeById?_hold (id : TypeId) :
    (registry.hold owned).typeById? id = (registry.typeById? id).map (TypeRecord.hold owned) := by
  cases hslot : registry.slots[id.index]? <;> simp [typeById?, hold, hslot]

theorem typeByName?_hold (name : String) :
    (registry.hold owned).typeByName? name =
      (registry.typeByName? name).map (TypeRecord.hold owned) := by
  have hnames : (registry.hold owned).names.get? name = registry.names.get? name :=
    NameIndex.get?_hold owned registry.names name
  cases hid : registry.names.get? name <;> simp [typeByName?, hnames, hid, typeById?_hold]

theorem types_hold :
    (registry.hold owned).types = registry.types.map (TypeRecord.hold owned) := by
  have hslots : (registry.hold owned).slots.toList =
      registry.slots.toList.map (Option.map (TypeRecord.hold owned)) := Array.toList_map
  rw [types, hslots, List.filterMap_map, types, List.map_filterMap]
  rfl

end Registry

/-! ## The names that are held -/

def NameIndex.heldNames (table : NameIndex) : List Name := table.nodes.toList.map (·.name)

/-- The name of a record, those of its members, and those that their index holds. -/
def TypeRecord.heldNames (record : TypeRecord) : List Name :=
  record.name :: record.members.names ++ record.memberIndex.elim [] NameIndex.heldNames

def Registry.heldNames (registry : Registry) : List Name :=
  registry.names.heldNames ++ registry.types.flatMap TypeRecord.heldNames

theorem NameIndex.heldNames_hold (owned : Bool) (table : NameIndex) :
    (table.hold owned).heldNames = table.heldNames.map (Name.hold owned) := by
  simp [heldNames, hold, Node.hold]

theorem Members.names_hold (owned : Bool) (members : Members) :
    (members.hold owned).names = members.names.map (Name.hold owned) := by
  cases members <;> simp [Members.hold, names, Field.hold, Enumerator.hold]

theorem TypeRecord.heldNames_hold (owned : Bool) (record : TypeRecord) :
    (record.hold owned).heldNames = record.heldNames.map (Name.hold owned) := by
  obtain ⟨id, name, size, kind, members, memberIndex, capacity⟩ := record
  cases memberIndex <;>
    simp [heldNames, hold, Members.names_hold, NameIndex.heldNames_hold]

namespace Registry

theorem heldNames_hold (owned : Bool) (registry : Registry) :
    (registry.hold owned).heldNames = registry.heldNames.map (Name.hold owned) := by
  rw [heldNames, types_hold, List.flatMap_map, heldNames, List.map_append, List.map_flatMap]
  simp only [TypeRecord.heldNames_hold]
  rw [← NameIndex.heldNames_hold]
  rfl

/-- Every name is held apart from the blob, or none is. -/
def HeldAs (owned : Bool) (registry : Registry) : Prop :=
  ∀ name ∈ registry.heldNames, name.owned = owned

theorem heldAs_hold (owned : Bool) (registry : Registry) : (registry.hold owned).HeldAs owned := by
  intro name hmem
  rw [heldNames_hold] at hmem
  obtain ⟨other, -, rfl⟩ := List.mem_map.mp hmem
  rfl

/-! ## Agreement -/

/-- Two registries that differ in how they hold names, and maybe in their tags. What they answer
is compared with all names held in one way. -/
structure Agrees (registry other : Registry) : Prop where
  idCapacity : registry.idCapacity = other.idCapacity
  typeById : ∀ id, (registry.typeById? id).map (TypeRecord.hold false) =
    (other.typeById? id).map (TypeRecord.hold false)
  typeByName : ∀ name, (registry.typeByName? name).map (TypeRecord.hold false) =
    (other.typeByName? name).map (TypeRecord.hold false)
  field : ∀ id name, ((registry.typeById? id).bind (·.field? name)).map (Field.hold false) =
    ((other.typeById? id).bind (·.field? name)).map (Field.hold false)
  enumerator : ∀ id name,
    ((registry.typeById? id).bind (·.enumerator? name)).map (Enumerator.hold false) =
      ((other.typeById? id).bind (·.enumerator? name)).map (Enumerator.hold false)
  enumValue : ∀ id name, (registry.typeById? id).bind (·.enumValue? name) =
    (other.typeById? id).bind (·.enumValue? name)
  /-- Nothing else differs either. -/
  whole : (registry.hold false).slots = (other.hold false).slots ∧
    (registry.hold false).names = (other.hold false).names

/-- A look-up in a record found answers as it does in the record held as asked. -/
theorem map_bind_hold {lookup : TypeRecord → Option α} {after : α → α} {owned : Bool}
    (h : ∀ record, lookup (record.hold owned) = (lookup record).map after)
    (found : Option TypeRecord) :
    (found.bind lookup).map after = (found.map (TypeRecord.hold owned)).bind lookup := by
  cases found with
  | none => rfl
  | some record => exact (h record).symm

theorem agrees_of_hold {registry other : Registry}
    (hslots : (registry.hold false).slots = (other.hold false).slots)
    (hnames : (registry.hold false).names = (other.hold false).names) : registry.Agrees other := by
  have hbyId : ∀ id, (registry.typeById? id).map (TypeRecord.hold false) =
      (other.typeById? id).map (TypeRecord.hold false) := by
    intro id
    rw [← typeById?_hold, ← typeById?_hold, typeById?, typeById?, hslots]
  refine ⟨?_, hbyId, ?_, ?_, ?_, ?_, hslots, hnames⟩
  · rw [← idCapacity_hold false registry, ← idCapacity_hold false other, idCapacity, idCapacity,
      hslots]
  · intro name
    rw [← typeByName?_hold, ← typeByName?_hold, typeByName?, typeByName?, hnames]
    simp only [typeById?_hold, hbyId]
  · intro id name
    have hfield := fun record => TypeRecord.field?_hold false record name
    rw [map_bind_hold hfield, map_bind_hold hfield, hbyId]
  · intro id name
    have henumerator := fun record => TypeRecord.enumerator?_hold false record name
    rw [map_bind_hold henumerator, map_bind_hold henumerator, hbyId]
  · intro id name
    have hvalue : ∀ found : Option TypeRecord, found.bind (·.enumValue? name) =
        (found.map (TypeRecord.hold false)).bind (·.enumValue? name) := by
      intro found
      cases found with
      | none => rfl
      | some record => exact (TypeRecord.enumValue?_hold false record name).symm
    rw [hvalue (registry.typeById? id), hvalue (other.typeById? id), hbyId]

end Registry

end TypeAtlas
