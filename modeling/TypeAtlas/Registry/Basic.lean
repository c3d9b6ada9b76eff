import TypeAtlas.Registry.Record

/-!
# Registry

Type records by id, with an index of their names. Every registry carries a tag of its
own, by which the values it allocates are told from those of other registries.
-/

namespace TypeAtlas

structure Registry where
  slots : Array (Option TypeRecord)
  names : NameIndex
  tag : UInt64
  deriving DecidableEq, Repr

namespace Registry

def empty (tag : UInt64) : Registry := ⟨#[none], .withCapacity 0, tag⟩

def withCount (count : Nat) (tag : UInt64) : Registry :=
  ⟨Array.replicate (count + 1) none, .withCapacity (2 * count), tag⟩

def put (registry : Registry) (record : TypeRecord) : Registry :=
  { registry with
    slots := registry.slots.setIfInBounds record.id.index (some record)
    names := registry.names.insert record.name record.id.index }

def ofRecords (count : Nat) (records : List TypeRecord) (tag : UInt64) : Registry :=
  records.foldl put (withCount count tag)

/-! ## Look-up -/

/-- The records present, in the order of their ids. -/
def types (registry : Registry) : List TypeRecord :=
  registry.slots.toList.filterMap fun slot => slot

def size (registry : Registry) : Nat := registry.types.length

def isEmpty (registry : Registry) : Bool := registry.types.isEmpty

/-- Number of ids, the unresolved one included. -/
def idCapacity (registry : Registry) : Nat := registry.slots.size

def typeById? (registry : Registry) (id : TypeId) : Option TypeRecord :=
  (registry.slots[id.index]?).join

def typeByName? (registry : Registry) (name : String) : Option TypeRecord := do
  let id ← registry.names.get? name
  registry.typeById? ⟨id⟩

def typeOfField? (registry : Registry) (field : Field) : Option TypeRecord :=
  registry.typeById? field.typeId

@[simp] theorem idCapacity_put (registry : Registry) (record : TypeRecord) :
    (registry.put record).idCapacity = registry.idCapacity := by
  simp [put, idCapacity]

/-- A record is found under its id, and the other ids keep theirs. -/
theorem typeById?_put (registry : Registry) (record : TypeRecord) (id : TypeId) :
    (registry.put record).typeById? id =
      if record.id.index = id.index ∧ id.index < registry.idCapacity then some record
      else registry.typeById? id := by
  simp only [typeById?, put, idCapacity, Array.getElem?_setIfInBounds]
  by_cases h : record.id.index = id.index
  · by_cases hin : id.index < registry.slots.size
    · simp [h, hin]
    · simp [h, hin]
  · simp [h]

def detach (registry : Registry) : Registry :=
  { registry with
    slots := registry.slots.map fun slot => slot.map TypeRecord.detach
    names := registry.names.detach }

end Registry

end TypeAtlas
