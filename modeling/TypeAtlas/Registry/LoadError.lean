import TypeAtlas.Blob.Error

/-!
# Load errors

Why a blob is not accepted as a registry.
-/

namespace TypeAtlas

inductive LoadError where
  /-- The framing or a single read failed. -/
  | blob (fault : BlobError)
  /-- The byte that should name a kind names none. -/
  | unknownKind (offset : Nat) (byte : UInt8)
  /-- That many types cannot stand in the bytes that follow. -/
  | typeCountTooLarge (count remaining : Nat)
  /-- That many members cannot stand in the bytes that follow. -/
  | memberCountTooLarge (typeName : String) (count remaining : Nat)
  /-- An entry's own id lies outside the table. -/
  | typeIdOutOfRange (id count : Nat)
  /-- The id of a field's type lies outside the table. -/
  | fieldTypeOutOfRange (typeName fieldName : String) (id count : Nat)
  deriving DecidableEq, Repr

namespace LoadError

def source? : LoadError → Option BlobError
  | blob fault => some fault
  | _ => none

def message : LoadError → String
  | blob fault => s!"malformed blob: {fault.message}"
  | unknownKind offset byte => s!"unknown type variant {byte.toNat} at offset {offset}"
  | typeCountTooLarge count remaining =>
    s!"type count {count} exceeds the {remaining} bytes left in the blob"
  | memberCountTooLarge typeName count remaining =>
    s!"type '{typeName}' declares {count} fields but only {remaining} bytes remain"
  | typeIdOutOfRange id count => s!"type id {id} out of range (type count {count})"
  | fieldTypeOutOfRange typeName fieldName id count =>
    s!"field '{typeName}.{fieldName}' references type id {id} out of range (type count {count})"

end LoadError

end TypeAtlas
