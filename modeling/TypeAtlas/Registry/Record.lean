import TypeAtlas.NameIndex
import TypeAtlas.Schema.Basic

/-!
# Type records

A record of a registry holds one type: its id, name, size and kind, and the members that
go with the kind, at most as many as were announced. The members are indexed by name; of
several members of one name the index knows the last.
-/

namespace TypeAtlas

/-- The id of a type; ids index a registry directly. -/
structure TypeId where
  index : Nat
  deriving DecidableEq, Repr, Inhabited

namespace TypeId

/-- The id of fields whose type is not known. -/
def unresolved : TypeId := ⟨0⟩

def label (id : TypeId) : String := s!"#{id.index}"

end TypeId

structure Field where
  /-- Dots separate the path of a member that lies within another. -/
  name : Name
  typeId : TypeId
  /-- Bytes from the start of the value that holds the field. -/
  offset : UInt64
  /-- Number of elements of an array, zero for a single value. -/
  arraySize : UInt64
  /-- Levels of pointers, zero for a value. -/
  pointerDepth : UInt32
  isConst : Bool
  deriving DecidableEq, Repr

namespace Field

def isArray (field : Field) : Bool := field.arraySize != 0

def isPointer (field : Field) : Bool := field.pointerDepth != 0

/-- Does the field lie within another one? -/
def isNested (field : Field) : Bool := field.name.text.toList.contains '.'

def detach (field : Field) : Field := { field with name := field.name.detach }

end Field

structure Enumerator where
  name : Name
  /-- The value as stored, negative ones in two's complement. -/
  value : UInt64
  deriving DecidableEq, Repr

namespace Enumerator

def signedValue (enumerator : Enumerator) : Int64 := enumerator.value.toInt64

def detach (enumerator : Enumerator) : Enumerator :=
  { enumerator with name := enumerator.name.detach }

end Enumerator

inductive Members where
  | none
  | fields (entries : List Field)
  | enumerators (entries : List Enumerator)
  deriving DecidableEq, Repr

namespace Members

def size : Members → Nat
  | none => 0
  | fields entries => entries.length
  | enumerators entries => entries.length

def detach : Members → Members
  | none => none
  | fields entries => fields (entries.map Field.detach)
  | enumerators entries => enumerators (entries.map Enumerator.detach)

def emptyFor : TypeKind → Members
  | .base => none
  | .struct | .union => fields []
  | .enum => enumerators []

end Members

structure TypeRecord where
  id : TypeId
  name : Name
  size : UInt64
  kind : TypeKind
  members : Members
  /-- Positions of members by name; base types have none. -/
  memberIndex : Option NameIndex
  /-- Number of members announced. -/
  capacity : Nat
  deriving DecidableEq, Repr

namespace TypeRecord

/-- A type without members, with room for `capacity` of them if its kind has members. -/
def withMembers (id : TypeId) (name : Name) (size : UInt64) (kind : TypeKind)
    (capacity : Nat) : TypeRecord where
  id := id
  name := name
  size := size
  kind := kind
  members := .emptyFor kind
  memberIndex :=
    if kind = .base then none
    else some (.withCapacity (min (2 * capacity) (UInt64.size - 1)))
  capacity := if kind = .base then 0 else capacity

/-- Append a field. It is refused, and nothing changes, when the record holds no fields or
holds as many as were announced. -/
def pushField (record : TypeRecord) (field : Field) : Bool × TypeRecord :=
  match record.members with
  | .fields entries =>
    if record.capacity ≤ entries.length then (false, record)
    else (true,
      { record with
        members := .fields (entries ++ [field])
        memberIndex := record.memberIndex.map (·.insert field.name entries.length) })
  | _ => (false, record)

def pushEnumerator (record : TypeRecord) (enumerator : Enumerator) : Bool × TypeRecord :=
  match record.members with
  | .enumerators entries =>
    if record.capacity ≤ entries.length then (false, record)
    else (true,
      { record with
        members := .enumerators (entries ++ [enumerator])
        memberIndex := record.memberIndex.map (·.insert enumerator.name entries.length) })
  | _ => (false, record)

def pushFields (record : TypeRecord) (fields : List Field) : TypeRecord :=
  fields.foldl (fun record field => (record.pushField field).2) record

def pushEnumerators (record : TypeRecord) (enumerators : List Enumerator) : TypeRecord :=
  enumerators.foldl (fun record enumerator => (record.pushEnumerator enumerator).2) record

/-! ## Look-up -/

def isEnum (record : TypeRecord) : Bool := record.kind == .enum

def fields (record : TypeRecord) : List Field :=
  match record.members with
  | .fields entries => entries
  | _ => []

def enumerators (record : TypeRecord) : List Enumerator :=
  match record.members with
  | .enumerators entries => entries
  | _ => []

def memberPosition? (record : TypeRecord) (name : String) : Option Nat := do
  let index ← record.memberIndex
  index.get? name

def field? (record : TypeRecord) (name : String) : Option Field := do
  let position ← record.memberPosition? name
  record.fields[position]?

def enumerator? (record : TypeRecord) (name : String) : Option Enumerator := do
  let position ← record.memberPosition? name
  record.enumerators[position]?

/-- The value of an enumerator; only enums have any. -/
def enumValue? (record : TypeRecord) (name : String) : Option UInt64 :=
  if record.isEnum then (record.enumerator? name).map (·.value) else none

def detach (record : TypeRecord) : TypeRecord :=
  { record with
    name := record.name.detach
    members := record.members.detach
    memberIndex := record.memberIndex.map (·.detach) }

end TypeRecord

end TypeAtlas
