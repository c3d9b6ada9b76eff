import TypeAtlas.Blob.Target
import TypeAtlas.Schema.Basic

/-!
# Type tables as data

The documented layout of a type table, for every target: the numbers and offsets that
stand in it, and the bytes that they make. Names stand in a table as offsets only, so what
a name is depends on the payload around the table, and is said by `Bytes.TextAt`.
-/

namespace TypeAtlas

/-- A field as a table lists it. Every flag other than zero says that it is constant. -/
structure TableField where
  name : Nat
  flag : UInt8
  pointerDepth : UInt32
  offset : Nat
  arraySize : Nat
  typeId : Nat
  deriving DecidableEq, Repr

structure TableEnumerator where
  name : Nat
  /-- The word that stands for the value. -/
  value : Nat
  deriving DecidableEq, Repr

inductive TableShape where
  | base
  | struct (fields : List TableField)
  | union (fields : List TableField)
  | enum (enumerators : List TableEnumerator)
  deriving DecidableEq, Repr

structure TableEntry where
  id : Nat
  name : Nat
  size : Nat
  shape : TableShape
  deriving DecidableEq, Repr

structure TypeTable where
  entries : List TableEntry
  deriving DecidableEq, Repr

namespace TableShape

def kind : TableShape → TypeKind
  | base => .base
  | struct _ => .struct
  | union _ => .union
  | enum _ => .enum

def nameOffsets : TableShape → List Nat
  | base => []
  | struct fields | union fields => fields.map (·.name)
  | enum enumerators => enumerators.map (·.name)

def typeIds : TableShape → List Nat
  | struct fields | union fields => fields.map (·.typeId)
  | base | enum _ => []

end TableShape

namespace TypeTable

/-- The offsets at which names stand, in the order in which the table lists them. -/
def nameOffsets (table : TypeTable) : List Nat :=
  table.entries.flatMap fun entry => entry.name :: entry.shape.nameOffsets

end TypeTable

/-! ## Bytes -/

/-- A number as a word of the target, without the digits that do not fit. -/
def Target.ofNat (target : Target) (n : Nat) : Bytes :=
  Bytes.ofWord target.order target.width.bytes n

def Target.Fits (target : Target) (n : Nat) : Prop := n < Bytes.wordCount target.width.bytes

namespace TableField

def toBytes (target : Target) (field : TableField) : Bytes :=
  target.ofNat field.name ++ field.flag :: target.half field.pointerDepth ++
    target.ofNat field.offset ++ target.ofNat field.arraySize ++ target.ofNat field.typeId

def Fits (target : Target) (field : TableField) : Prop :=
  target.Fits field.name ∧ target.Fits field.offset ∧ target.Fits field.arraySize ∧
    target.Fits field.typeId

end TableField

namespace TableEnumerator

def toBytes (target : Target) (enumerator : TableEnumerator) : Bytes :=
  target.ofNat enumerator.name ++ target.ofNat enumerator.value

def Fits (target : Target) (enumerator : TableEnumerator) : Prop :=
  target.Fits enumerator.name ∧ target.Fits enumerator.value

end TableEnumerator

namespace TableShape

/-- The count of the members and the members; nothing at all for a base type. -/
def toBytes (target : Target) : TableShape → Bytes
  | base => []
  | struct fields | union fields =>
    target.ofNat fields.length ++ fields.flatMap (TableField.toBytes target)
  | enum enumerators =>
    target.ofNat enumerators.length ++ enumerators.flatMap (TableEnumerator.toBytes target)

def Fits (target : Target) : TableShape → Prop
  | base => True
  | struct fields | union fields =>
    target.Fits fields.length ∧ ∀ field ∈ fields, field.Fits target
  | enum enumerators =>
    target.Fits enumerators.length ∧ ∀ enumerator ∈ enumerators, enumerator.Fits target

end TableShape

namespace TableEntry

def toBytes (target : Target) (entry : TableEntry) : Bytes :=
  target.ofNat entry.id ++ entry.shape.kind.toByte :: target.ofNat entry.name ++
    target.ofNat entry.size ++ entry.shape.toBytes target

def Fits (target : Target) (entry : TableEntry) : Prop :=
  target.Fits entry.id ∧ target.Fits entry.name ∧ target.Fits entry.size ∧
    entry.shape.Fits target

end TableEntry

namespace TypeTable

def toBytes (target : Target) (table : TypeTable) : Bytes :=
  target.ofNat table.entries.length ++ table.entries.flatMap (TableEntry.toBytes target)

def Fits (target : Target) (table : TypeTable) : Prop :=
  target.Fits table.entries.length ∧ ∀ entry ∈ table.entries, entry.Fits target

end TypeTable

end TypeAtlas
