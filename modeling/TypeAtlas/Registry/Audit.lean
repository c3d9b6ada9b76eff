import TypeAtlas.Registry.Demand
import TypeAtlas.Registry.Load

/-!
# An audited load

The load, step by step as it goes, with every demand that it makes on memory. Members go into
their record, and records into the registry, one at a time and as soon as they are read, so a
load that fails has made the demands of what came before the fault.
-/

namespace TypeAtlas.Audited

/-! ## Framing -/

def byteAt (bytes : Bytes) (position : Nat) : Audited UInt8 := do
  demand [.element position bytes.length]
  return bytes.getD position 0

def header (bytes : Bytes) : Audited (Option Header) :=
  if bytes.length < headerMagic.length then return none
  else do
    demand [.slice 0 headerMagic.length bytes.length]
    if bytes.take headerMagic.length ≠ headerMagic then return none
    else if bytes.length < headerLength then
      fail (.blob (.unexpectedEnd bytes.length (headerLength - bytes.length)))
    else do
      let tag ← byteAt bytes 6
      match ByteOrder.ofTag? tag with
      | none => do
        let tag ← byteAt bytes 6
        fail (.blob (.badHeader (.unknownByteOrder tag)))
      | some order => do
        let version ← byteAt bytes 4
        let width ← byteAt bytes 5
        return some ⟨version, width, order⟩

def payload (framing : Framing) (bytes : Bytes) : Audited Bytes :=
  if framing = .raw then return bytes
  else do
    match ← header bytes with
    | some header => do
      plain (Registry.reading header.checkHost)
      demand [.slice headerLength bytes.length bytes.length]
      return bytes.drop headerLength
    | none =>
      if framing = .framed then fail (.blob (.badHeader .missingMagic)) else return bytes

/-! ## Cursor -/

def readBytes (cursor : Cursor) (count : Nat) : Audited (Bytes × Cursor) :=
  let stop := cursor.offset + count
  if stop ≤ cursor.length then do
    demand [.slice cursor.offset stop cursor.length]
    return ((cursor.buffer.extract cursor.offset stop).toList, { cursor with offset := stop })
  else fail (.blob (.unexpectedEnd cursor.offset count))

def readNumber (cursor : Cursor) (width : Nat) : Audited (Nat × Cursor) := do
  let (bytes, next) ← readBytes cursor width
  demand [.copy bytes.length width]
  return (Bytes.toWord hostOrder bytes, next)

def readByte (cursor : Cursor) : Audited (UInt8 × Cursor) := do
  let (number, next) ← readNumber cursor 1
  return (UInt8.ofNat number, next)

def readFlag (cursor : Cursor) : Audited (Bool × Cursor) := do
  let (number, next) ← readNumber cursor 1
  return (number != 0, next)

def readHalf (cursor : Cursor) : Audited (UInt32 × Cursor) := do
  let (number, next) ← readNumber cursor 4
  return (UInt32.ofNat number, next)

def readWord (cursor : Cursor) : Audited (UInt64 × Cursor) := do
  let (number, next) ← readNumber cursor hostWidth
  return (UInt64.ofNat number, next)

def nameAt (cursor : Cursor) (offset : Nat) : Audited Name :=
  if cursor.length < offset then fail (.blob (.stringOutOfRange offset cursor.length))
  else
    let tail := (cursor.buffer.extract offset).toList
    match tail.findIdx? (· == 0) with
    | none => fail (.blob (.unterminatedString offset))
    | some stop => do
      demand [.slice 0 stop tail.length]
      match Bytes.toString? (tail.take stop) with
      | some text => return ⟨text, cursor.copies⟩
      | none => fail (.blob (.invalidUtf8 offset))

def readName (cursor : Cursor) : Audited (Name × Cursor) := do
  let (offset, next) ← readWord cursor
  let name ← nameAt next offset.toNat
  return (name, next)

/-! ## Name indexes -/

/-- Room for the buckets, of which there is one at least, and for half as many nodes. -/
def reserveNames (capacity : Nat) : Audited Unit :=
  demand [.room (max capacity 1), .room (capacity / 2)]

def walk (nodes : Array NameIndex.Node) (text : String) : Nat → Option Nat → List Demand
  | _, none => []
  | 0, some _ => [.endless]
  | bound + 1, some position =>
    .element position nodes.size ::
      match nodes[position]? with
      | none => []
      | some node => if node.name.text = text then [] else walk nodes text bound node.next

/-- An empty bucket is looked at and then filled; the chain of any other is walked along. -/
def search (table : NameIndex) (text : String) : List Demand :=
  let bucket := table.bucketOf text
  .element bucket table.buckets.size ::
    match (table.buckets[bucket]?).join with
    | none => [.element bucket table.buckets.size]
    | some head => walk table.nodes text table.nodes.size (some head)

def insert (table : NameIndex) (name : Name) (id : Nat) : Audited NameIndex := do
  demand (search table name.text)
  return table.insert name id

/-! ## Entries -/

def readInto (read : Cursor → Audited (α × Cursor)) (put : β → α → Audited β) :
    Nat → β → Cursor → Audited (β × Cursor)
  | 0, target, cursor => return (target, cursor)
  | count + 1, target, cursor => do
    let (value, cursor) ← read cursor
    let target ← put target value
    readInto read put count target cursor

def readCount (cursor : Cursor) (least : Nat) (fault : Nat → Nat → LoadError) :
    Audited (Nat × Cursor) := do
  let (count, cursor) ← readWord cursor
  if cursor.hasRoom count.toNat least then return (count.toNat, cursor)
  else fail (fault count.toNat cursor.remaining)

def readField (typeCount : Nat) (typeName : String) (cursor : Cursor) :
    Audited (Field × Cursor) := do
  let (name, cursor) ← readName cursor
  let (isConst, cursor) ← readFlag cursor
  let (pointerDepth, cursor) ← readHalf cursor
  let (offset, cursor) ← readWord cursor
  let (arraySize, cursor) ← readWord cursor
  let (typeId, cursor) ← readWord cursor
  if typeCount < typeId.toNat then
    fail (.fieldTypeOutOfRange typeName name.text typeId.toNat typeCount)
  else
    return (⟨name, ⟨typeId.toNat⟩, offset, arraySize, pointerDepth, isConst⟩, cursor)

def readEnumerator (cursor : Cursor) : Audited (Enumerator × Cursor) := do
  let (name, cursor) ← readName cursor
  let (value, cursor) ← readWord cursor
  return (⟨name, value⟩, cursor)

def withMembers (id : TypeId) (name : Name) (size : UInt64) (kind : TypeKind)
    (capacity : Nat) : Audited TypeRecord := do
  demand [.room capacity, .number (2 * capacity)]
  reserveNames (2 * capacity)
  return .withMembers id name size kind capacity

/-- What the index of a record is asked for when a member is pushed, if it is taken. -/
def indexMember (record : TypeRecord) (name : Name) (taken : Bool) : List Demand :=
  match taken, record.memberIndex with
  | true, some index => search index name.text
  | _, _ => []

def push (record : TypeRecord) (name : Name) (answer : Bool × TypeRecord) :
    Audited TypeRecord := do
  demand (indexMember record name answer.1)
  demand [.push answer.1]
  return answer.2

def pushField (record : TypeRecord) (field : Field) : Audited TypeRecord :=
  push record field.name (record.pushField field)

def pushEnumerator (record : TypeRecord) (enumerator : Enumerator) : Audited TypeRecord :=
  push record enumerator.name (record.pushEnumerator enumerator)

def readAnnounced (id : TypeId) (name : Name) (size : UInt64) (kind : TypeKind) (least : Nat)
    (read : Cursor → Audited (α × Cursor)) (put : TypeRecord → α → Audited TypeRecord)
    (cursor : Cursor) : Audited (TypeRecord × Cursor) := do
  let (count, cursor) ← readCount cursor least (.memberCountTooLarge name.text)
  let record ← withMembers id name size kind count
  readInto read put count record cursor

def readMembers (typeCount : Nat) (id : TypeId) (name : Name) (size : UInt64) (kind : TypeKind)
    (cursor : Cursor) : Audited (TypeRecord × Cursor) :=
  match kind with
  | .base => return (.withMembers id name size .base 0, cursor)
  | .struct | .union =>
    readAnnounced id name size kind fieldLength (readField typeCount name.text) pushField cursor
  | .enum => readAnnounced id name size kind enumeratorLength readEnumerator pushEnumerator cursor

def readKind (cursor : Cursor) : Audited (TypeKind × Cursor) := do
  let (byte, next) ← readByte cursor
  match TypeKind.ofByte? byte with
  | some kind => return (kind, next)
  | none => fail (.unknownKind cursor.offset byte)

def readType (typeCount : Nat) (cursor : Cursor) : Audited (TypeRecord × Cursor) := do
  let (id, cursor) ← readWord cursor
  if typeCount < id.toNat then fail (.typeIdOutOfRange id.toNat typeCount)
  else
    let (kind, cursor) ← readKind cursor
    let (name, cursor) ← readName cursor
    let (size, cursor) ← readWord cursor
    readMembers typeCount ⟨id.toNat⟩ name size kind cursor

/-! ## Loading -/

/-- Index a record's name, look whether its slot is taken, and fill the slot. -/
def put (registry : Registry) (record : TypeRecord) : Audited Registry := do
  let _ ← insert registry.names record.name record.id.index
  demand [.element record.id.index registry.slots.size,
    .element record.id.index registry.slots.size]
  return registry.put record

def readRegistry (cursor : Cursor) (tag : UInt64) : Audited Registry := do
  let (count, cursor) ← readCount cursor entryLeast .typeCountTooLarge
  demand [.number (count + 1), .room (count + 1), .number (2 * count)]
  reserveNames (2 * count)
  let (registry, _) ← readInto (readType count) put count (.withCount count tag) cursor
  return registry

def load (bytes : Bytes) (options : LoadOptions) (tag : UInt64) : Audited Registry := do
  let payload ← payload options.framing bytes
  if payload.isEmpty then do
    demand [.room 1]
    reserveNames 0
    return .empty tag
  else readRegistry (.start payload options.copies) tag

end TypeAtlas.Audited
