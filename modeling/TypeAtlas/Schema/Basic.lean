/-!
# Schemas

What an extraction step knows about the types of a program: names, sizes, field layouts
and enumerators, with the types of fields given by name. The id of a type is its position
plus one; id 0 stands for a type that the schema does not know.
-/

namespace TypeAtlas

inductive TypeKind where
  | base
  | struct
  | union
  | enum
  deriving DecidableEq, Repr, Inhabited

namespace TypeKind

def toByte : TypeKind → UInt8
  | base => 1
  | struct => 2
  | union => 3
  | enum => 4

def ofByte? (byte : UInt8) : Option TypeKind :=
  if byte = 1 then some base
  else if byte = 2 then some struct
  else if byte = 3 then some union
  else if byte = 4 then some enum
  else none

def name : TypeKind → String
  | base => "base"
  | struct => "struct"
  | union => "union"
  | enum => "enum"

def hasFields : TypeKind → Bool
  | struct | union => true
  | base | enum => false

@[simp] theorem ofByte?_toByte (kind : TypeKind) : ofByte? kind.toByte = some kind := by
  cases kind <;> rfl

theorem toByte_of_ofByte? {byte : UInt8} {kind : TypeKind} (h : ofByte? byte = some kind) :
    kind.toByte = byte := by
  unfold ofByte? at h
  repeat' split at h
  all_goals simp_all only [Option.some.injEq, reduceCtorEq]
  all_goals subst h; rfl

/-- The bytes that stand for no kind are those outside of one to four. -/
theorem ofByte?_eq_none_iff {byte : UInt8} :
    ofByte? byte = none ↔ ¬ (1 ≤ byte.toNat ∧ byte.toNat ≤ 4) := by
  have hbyte : ∀ number : UInt8, byte = number ↔ byte.toNat = number.toNat :=
    fun number => UInt8.toNat_inj.symm
  unfold ofByte?
  simp only [hbyte]
  grind

end TypeKind

structure FieldDef where
  name : String
  /-- Name of the field's type, or of its elements' or pointee's. -/
  typeName : String
  offset : UInt64
  pointerDepth : UInt32
  arraySize : UInt64
  isConst : Bool
  /-- The type is a struct or union; without it the field cannot be laid out. -/
  isRecord : Bool
  deriving DecidableEq, Repr, Inhabited

structure EnumeratorDef where
  name : String
  value : Int64
  deriving DecidableEq, Repr, Inhabited

structure TypeDef where
  name : String
  kind : TypeKind
  size : UInt64
  /-- Other names of the type. A blob has no place for them. -/
  aliases : List String
  fields : List FieldDef
  enumerators : List EnumeratorDef
  deriving DecidableEq, Repr, Inhabited

structure Schema where
  /-- Pointer width in bytes that the types were extracted for. -/
  arch : Option UInt64
  types : List TypeDef
  deriving DecidableEq, Repr, Inhabited

namespace Schema

def size (schema : Schema) : Nat := schema.types.length

def isEmpty (schema : Schema) : Bool := schema.types.isEmpty

/-- Every type name once, in order of first appearance. -/
def names (schema : Schema) : List String :=
  (schema.types.map (·.name)).foldl (fun seen name =>
    if name ∈ seen then seen else seen ++ [name]) []

/-- Search a list of definitions from some position on; the last of a name is found. -/
def lastIdFrom (name : String) : Nat → List TypeDef → Option Nat
  | _, [] => none
  | position, ty :: rest =>
    (lastIdFrom name (position + 1) rest).or (if ty.name = name then some (position + 1) else none)

/-- Id of the last type of a name. -/
def id? (schema : Schema) (name : String) : Option Nat := lastIdFrom name 0 schema.types

def get? (schema : Schema) (name : String) : Option TypeDef :=
  schema.types.reverse.find? (·.name = name)

def ids (schema : Schema) : List (String × Nat) :=
  schema.names.filterMap fun name => (schema.id? name).map fun id => (name, id)

/-- The id a field's type is written with. A field of an unknown record type has none. -/
def resolve? (schema : Schema) (field : FieldDef) : Option Nat :=
  match schema.id? field.typeName with
  | some id => some id
  | none => if field.isRecord then none else some 0

/-- The fields of a definition that can be laid out, each with its type's id. -/
def keptFields (schema : Schema) (ty : TypeDef) : List (FieldDef × Nat) :=
  ty.fields.filterMap fun field => (schema.resolve? field).map fun id => (field, id)

def droppedFields (schema : Schema) (ty : TypeDef) : List FieldDef :=
  if ty.kind.hasFields then ty.fields.filter fun field => (schema.resolve? field).isNone
  else []

end Schema

end TypeAtlas
