import TypeAtlas.Blob.Cursor
import TypeAtlas.Note
import TypeAtlas.Registry.Basic

/-!
# Loading a registry

The type table is read entry by entry. Each count is checked against the bytes that are
left before anything is built for it: an entry takes at least 25 bytes, a field 37 and an
enumerator 16. Either every entry is read, or the load fails with the first fault.
-/

namespace TypeAtlas

structure LoadOptions where
  /-- Hold names apart from the blob. -/
  copies : Bool
  framing : Framing
  deriving DecidableEq, Repr

namespace LoadOptions

def standard : LoadOptions := ⟨false, .detect⟩

end LoadOptions

/-- Bytes of the shortest entry: id, kind, name and size. -/
def entryLeast : Nat := 25

/-- Bytes of a field: name, constancy, pointer depth, offset, array size and type id. -/
def fieldLength : Nat := 37

def enumeratorLength : Nat := 16

namespace Registry

def reading : Except BlobError α → Except LoadError α
  | .ok value => .ok value
  | .error fault => .error (.blob fault)

theorem reading_eq_ok_iff {step : Except BlobError α} {value : α} :
    reading step = .ok value ↔ step = .ok value := by
  cases step <;> simp [reading]

theorem reading_pure (value : α) : reading (pure value) = pure value := rfl

theorem reading_bind (step : Except BlobError α) (next : α → Except BlobError β) :
    reading (step >>= next) = reading step >>= fun value => reading (next value) := by
  cases step <;> rfl

theorem reading_map (step : Except BlobError α) (f : α → β) :
    reading (step.map f) = reading step >>= fun value => pure (f value) := by
  cases step <;> rfl

/-! ## Entries -/

/-- A member count that the bytes left can hold. -/
def readCount (cursor : Cursor) (typeName : String) (least : Nat) :
    Except LoadError (Nat × Cursor) := do
  let (count, cursor) ← reading cursor.readWord
  if cursor.hasRoom count.toNat least then return (count.toNat, cursor)
  else throw (.memberCountTooLarge typeName count.toNat cursor.remaining)

def readField (typeCount : Nat) (typeName : String) (cursor : Cursor) :
    Except LoadError (Field × Cursor) := do
  let (name, cursor) ← reading cursor.readName
  let (isConst, cursor) ← reading cursor.readFlag
  let (pointerDepth, cursor) ← reading cursor.readHalf
  let (offset, cursor) ← reading cursor.readWord
  let (arraySize, cursor) ← reading cursor.readWord
  let (typeId, cursor) ← reading cursor.readWord
  if typeCount < typeId.toNat then
    throw (.fieldTypeOutOfRange typeName name.text typeId.toNat typeCount)
  else
    return (⟨name, ⟨typeId.toNat⟩, offset, arraySize, pointerDepth, isConst⟩, cursor)

def readEnumerator (cursor : Cursor) : Except LoadError (Enumerator × Cursor) := do
  let (name, cursor) ← reading cursor.readName
  let (value, cursor) ← reading cursor.readWord
  return (⟨name, value⟩, cursor)

def readMany (read : Cursor → Except LoadError (α × Cursor)) :
    Nat → Cursor → Except LoadError (List α × Cursor)
  | 0, cursor => return ([], cursor)
  | count + 1, cursor => do
    let (first, cursor) ← read cursor
    let (rest, cursor) ← readMany read count cursor
    return (first :: rest, cursor)

def readMembers (typeCount : Nat) (id : TypeId) (name : Name) (size : UInt64) (kind : TypeKind)
    (cursor : Cursor) : Except LoadError (TypeRecord × Cursor) :=
  match kind with
  | .base => return (.withMembers id name size .base 0, cursor)
  | .struct | .union => do
    let (count, cursor) ← readCount cursor name.text fieldLength
    let (fields, cursor) ← readMany (readField typeCount name.text) count cursor
    return ((TypeRecord.withMembers id name size kind count).pushFields fields, cursor)
  | .enum => do
    let (count, cursor) ← readCount cursor name.text enumeratorLength
    let (enumerators, cursor) ← readMany readEnumerator count cursor
    return ((TypeRecord.withMembers id name size kind count).pushEnumerators enumerators, cursor)

def readKind (cursor : Cursor) : Except LoadError (TypeKind × Cursor) := do
  let (byte, next) ← reading cursor.readByte
  match TypeKind.ofByte? byte with
  | some kind => return (kind, next)
  | none => throw (.unknownKind cursor.offset byte)

def readType (typeCount : Nat) (cursor : Cursor) : Except LoadError (TypeRecord × Cursor) := do
  let (id, cursor) ← reading cursor.readWord
  if typeCount < id.toNat then throw (.typeIdOutOfRange id.toNat typeCount)
  else
    let (kind, cursor) ← readKind cursor
    let (name, cursor) ← reading cursor.readName
    let (size, cursor) ← reading cursor.readWord
    readMembers typeCount ⟨id.toNat⟩ name size kind cursor

def readTypeCount (cursor : Cursor) : Except LoadError (Nat × Cursor) := do
  let (count, cursor) ← reading cursor.readWord
  if cursor.hasRoom count.toNat entryLeast then return (count.toNat, cursor)
  else throw (.typeCountTooLarge count.toNat cursor.remaining)

def readTable (cursor : Cursor) : Except LoadError ((Nat × List TypeRecord) × Cursor) := do
  let (count, cursor) ← readTypeCount cursor
  let (records, cursor) ← readMany (readType count) count cursor
  return ((count, records), cursor)

/-! ## Loading -/

def load (bytes : Bytes) (options : LoadOptions) (tag : UInt64) : Except LoadError Registry := do
  let payload ← reading (options.framing.payload bytes)
  if payload.isEmpty then return empty tag
  else
    let ((count, records), _) ← readTable (.start payload options.copies)
    return ofRecords count records tag

def loadOwned (bytes : Bytes) (framing : Framing) (tag : UInt64) : Except LoadError Registry :=
  (load bytes ⟨true, framing⟩ tag).map detach

/-! ## Notes -/

/-- The entries that can be read before the first fault. -/
def readWhile (read : Cursor → Except LoadError (α × Cursor)) : Nat → Cursor → List α
  | 0, _ => []
  | count + 1, cursor =>
    match read cursor with
    | .ok (first, cursor) => first :: readWhile read count cursor
    | .error _ => []

/-- One note for each record whose id an earlier one has. -/
def takenNotes : List Nat → List TypeRecord → List Note
  | _, [] => []
  | taken, record :: rest =>
    (if record.id.index ∈ taken then [.idTaken record.id.index record.name.text] else []) ++
      takenNotes (record.id.index :: taken) rest

def tableNotes (payload : Bytes) (options : LoadOptions) : List Note :=
  let cursor := Cursor.start payload options.copies
  match readTypeCount cursor with
  | .error _ => []
  | .ok (count, behind) =>
    takenNotes [] (readWhile (readType count) count behind) ++
    match readTable cursor with
    | .error _ => []
    | .ok ((count, records), rest) =>
      let registry := ofRecords count records 0
      (if rest.atEnd then [] else [.bytesBehindTable rest.remaining]) ++
        [.loaded registry.size registry.idCapacity options.copies]

def loadNotes (bytes : Bytes) (options : LoadOptions) : List Note :=
  let table :=
    match options.framing.payload bytes with
    | .error _ => []
    | .ok payload => if payload.isEmpty then [.emptyBlob] else tableNotes payload options
  match load bytes options 0 with
  | .ok _ => table
  | .error error => table ++ [.rejected bytes.length error]

end Registry

end TypeAtlas
