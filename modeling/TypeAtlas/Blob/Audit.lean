import TypeAtlas.Blob.Content
import TypeAtlas.Blob.Encode
import TypeAtlas.Registry.Demand
import TypeAtlas.Registry.Load

/-!
# An audited encoding

The encoding of a schema, step by step as it goes, with the exact result of every sum and
product of machine words that is formed on the way. The table is planned before the width is
known to be one that words can have, so a plan may ask for more than a machine word holds.
-/

namespace TypeAtlas

namespace Audited

/-- No sum or product of machine words on the way is more than a machine word holds. -/
def Exact (step : Audited α) : Prop :=
  ∀ number, .number number ∈ step.demands → number < UInt64.size

/-! ## Machine words -/

/-- An operation on machine words, and what it would give without a bound. -/
def combine (exact : Nat → Nat → Nat) (bounded : UInt64 → UInt64 → UInt64)
    (left right : Audited UInt64) : Audited UInt64 := do
  let left ← left
  let right ← right
  demand [.number (exact left.toNat right.toNat)]
  return bounded left right

def plus : Audited UInt64 → Audited UInt64 → Audited UInt64 := combine (· + ·) (· + ·)

def times : Audited UInt64 → Audited UInt64 → Audited UInt64 := combine (· * ·) (· * ·)

/-! ## Planning -/

def plannedEntry (schema : Schema) (width : UInt64) (ty : TypeDef) : Audited UInt64 :=
  let head := plus (times (pure 3) (pure width)) (pure 1)
  match ty.kind with
  | .base => head
  | .struct | .union =>
    plus (plus head (pure width))
      (times (pure (UInt64.ofNat (schema.keptFields ty).length))
        (plus (plus (times (pure 4) (pure width)) (pure 1)) (pure 4)))
  | .enum =>
    plus (plus head (pure width))
      (times (times (pure (UInt64.ofNat ty.enumerators.length)) (pure 2)) (pure width))

def plannedLength (schema : Schema) (width : UInt64) : Audited UInt64 :=
  plus (pure width)
    (schema.types.foldl (fun total ty => plus total (plannedEntry schema width ty)) (pure 0))

/-! ## Writing -/

def emitItem (target : Target) (tableLength : UInt64) (pool : StringPool) :
    Item → Audited (Bytes × StringPool)
  | .name text => do
    let (offset, pool) ← plain (Registry.reading (pool.intern text))
    let word ← plus (pure tableLength) (pure (UInt64.ofNat offset))
    let bytes ← plain (Registry.reading (target.word word))
    return (bytes, pool)
  | item => plain (Registry.reading (target.emitItem tableLength pool item))

def emit (target : Target) (tableLength : UInt64) (pool : StringPool) :
    List Item → Audited (Bytes × StringPool)
  | [] => return ([], pool)
  | item :: rest => do
    let (bytes, pool) ← emitItem target tableLength pool item
    let (more, pool) ← emit target tableLength pool rest
    return (bytes ++ more, pool)

def emitEntries (schema : Schema) (target : Target) (tableLength : UInt64)
    (pool : StringPool) (position : Nat) : List TypeDef → Audited (Bytes × StringPool)
  | [] => return ([], pool)
  | ty :: rest => do
    demand [.number (position + 1)]
    let (bytes, pool) ← emit target tableLength pool (schema.entryItems ty (position + 1))
    let (more, pool) ← emitEntries schema target tableLength pool (position + 1) rest
    return (bytes ++ more, pool)

def emitTable (schema : Schema) (target : Target) (tableLength : UInt64) :
    Audited (Bytes × StringPool) := do
  let (count, pool) ← emit target tableLength .empty [.word (UInt64.ofNat schema.size)]
  let (entries, pool) ← emitEntries schema target tableLength pool 0 schema.types
  return (count ++ entries, pool)

/-- The ids of all types are known first, then the length of the table, and only then the
width is looked at. -/
def encode (schema : Schema) (options : WriterOptions) : Audited Bytes := do
  demand ((List.range schema.size).map fun position => .number (position + 1))
  let tableLength ← plannedLength schema options.pointerWidth
  let target ← plain (Registry.reading (Target.ofOptions options))
  let (table, pool) ← emitTable schema target tableLength
  return (if options.framed then target.header.toBytes else []) ++ table ++ pool.bytes

end Audited

namespace Schema

/-! ## How large a schema is -/

def partCount (schema : Schema) : Nat :=
  schema.types.length +
    (schema.types.map fun ty => ty.fields.length + ty.enumerators.length).foldr (· + ·) 0

/-- Bytes of the distinct names, without the NULs that close them. -/
def textLength (schema : Schema) : Nat :=
  (schema.writtenNames.eraseDups.map fun name => (Bytes.ofString name).length).foldr (· + ·) 0

/-- The plan for a width stays within machine words: the whole table does, and so does the
record of one field wherever fields are counted. -/
def PlanFits (schema : Schema) (width : Nat) : Prop :=
  schema.tableLength width < UInt64.size ∧
    ∀ ty ∈ schema.types, ty.kind.hasFields = true → 4 * width + 1 + 4 < UInt64.size

end Schema

end TypeAtlas
