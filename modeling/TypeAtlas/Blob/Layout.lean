import TypeAtlas.Blob.StringPool
import TypeAtlas.Blob.Target
import TypeAtlas.Schema.Basic

/-!
# Layout of the type table

A type table is a flat sequence of items: the number of types, then per type its id, kind,
name and size, and behind them the count and items of its fields or enumerators. Names are
written as words, the offsets at which a string pool behind the table holds them, so the
length of the table is planned before anything is written.
-/

namespace TypeAtlas

inductive Item where
  | byte (value : UInt8)
  | flag (value : Bool)
  | half (value : UInt32)
  | word (value : UInt64)
  | signed (value : Int64)
  | name (text : String)
  deriving DecidableEq, Repr

namespace Item

def length (width : Nat) : Item → Nat
  | byte _ | flag _ => 1
  | half _ => 4
  | word _ | signed _ | name _ => width

end Item

namespace Schema

/-! ## Items -/

def fieldItems (entry : FieldDef × Nat) : List Item :=
  [.name entry.1.name, .flag entry.1.isConst, .half entry.1.pointerDepth, .word entry.1.offset,
    .word entry.1.arraySize, .word (UInt64.ofNat entry.2)]

def enumeratorItems (enumerator : EnumeratorDef) : List Item :=
  [.name enumerator.name, .signed enumerator.value]

def memberItems (schema : Schema) (ty : TypeDef) : List Item :=
  match ty.kind with
  | .base => []
  | .struct | .union =>
    let fields := schema.keptFields ty
    .word (UInt64.ofNat fields.length) :: fields.flatMap fieldItems
  | .enum =>
    .word (UInt64.ofNat ty.enumerators.length) :: ty.enumerators.flatMap enumeratorItems

def entryItems (schema : Schema) (ty : TypeDef) (id : Nat) : List Item :=
  .word (UInt64.ofNat id) :: .byte ty.kind.toByte :: .name ty.name :: .word ty.size ::
    schema.memberItems ty

/-- The entries of some types, whose ids count on from `id`. -/
def entriesFrom (schema : Schema) : Nat → List TypeDef → List Item
  | _, [] => []
  | id, ty :: rest => schema.entryItems ty id ++ schema.entriesFrom (id + 1) rest

def items (schema : Schema) : List Item :=
  .word (UInt64.ofNat schema.size) :: schema.entriesFrom 1 schema.types

/-! ## Planned length

The plan is drawn up in machine words, before the width is known to be a good one. -/

def plannedEntry (schema : Schema) (width : UInt64) (ty : TypeDef) : UInt64 :=
  let head := 3 * width + 1
  match ty.kind with
  | .base => head
  | .struct | .union =>
    head + width + UInt64.ofNat (schema.keptFields ty).length * (4 * width + 1 + 4)
  | .enum => head + width + UInt64.ofNat ty.enumerators.length * 2 * width

def plannedLength (schema : Schema) (width : UInt64) : UInt64 :=
  width + (schema.types.map (schema.plannedEntry width)).foldl (· + ·) 0

end Schema

namespace Target

/-! ## Writing items -/

/-- The bytes of one item. A name is interned, and its offset counted from the front of a
table of the given length. -/
def emitItem (target : Target) (tableLength : UInt64) (pool : StringPool) :
    Item → Except BlobError (Bytes × StringPool)
  | .byte value => .ok ([value], pool)
  | .flag value => .ok ([if value then 1 else 0], pool)
  | .half value => .ok (target.half value, pool)
  | .word value => (target.word value).map fun bytes => (bytes, pool)
  | .signed value => (target.signedWord value).map fun bytes => (bytes, pool)
  | .name text => do
    let (offset, pool) ← pool.intern text
    let bytes ← target.word (tableLength + UInt64.ofNat offset)
    return (bytes, pool)

def emit (target : Target) (tableLength : UInt64) (pool : StringPool) :
    List Item → Except BlobError (Bytes × StringPool)
  | [] => .ok ([], pool)
  | item :: rest => do
    let (bytes, pool) ← target.emitItem tableLength pool item
    let (more, pool) ← target.emit tableLength pool rest
    return (bytes ++ more, pool)

end Target

end TypeAtlas
