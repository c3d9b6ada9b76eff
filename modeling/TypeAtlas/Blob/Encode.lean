import TypeAtlas.Blob.Layout
import TypeAtlas.Note

/-!
# Encoding a schema

A blob is its type table with the string pool behind it, and a header in front when one
is asked for. What was left out, and how long the parts came out, is told in notes.
-/

namespace TypeAtlas

namespace Schema

def encodeParts (schema : Schema) (options : WriterOptions) :
    Except BlobError (Bytes × Bytes) := do
  let target ← Target.ofOptions options
  let (table, pool) ←
    target.emit (schema.plannedLength options.pointerWidth) .empty schema.items
  return (table, pool.bytes)

def encode (schema : Schema) (options : WriterOptions) : Except BlobError Bytes := do
  let target ← Target.ofOptions options
  let (table, pool) ← schema.encodeParts options
  return (if options.framed then target.header.toBytes else []) ++ table ++ pool

def encodeNotes (schema : Schema) (options : WriterOptions) : List Note :=
  (schema.types.flatMap fun ty =>
    (schema.droppedFields ty).map fun field =>
      .fieldDropped ty.name field.name field.typeName) ++
  match schema.encodeParts options with
  | .ok (_, pool) =>
    [.encoded schema.size (schema.plannedLength options.pointerWidth).toNat pool.length]
  | .error _ => []

end Schema

end TypeAtlas
