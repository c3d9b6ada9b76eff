import TypeAtlas.Blob.TypeTable
import TypeAtlas.Registry.Load

/-!
# What a load error says

A load that fails reports offsets, counts and lengths. Here is said of every error what the bytes
show when its report is true: how far the table has been read, what stands there, and which limit
it breaks. An error that no load gives is never true.

Behind its id an entry has its kind at byte 8, the offset of its name at 9, its size at 17, the
count of its members at 25 and the members from byte 33 on. The id of a field's type is at byte 29
of the field.
-/

namespace TypeAtlas

namespace Bytes

structure WordAt (bytes : Bytes) (position number : Nat) : Prop where
  whole : position + hostWidth ≤ bytes.length
  number_eq : toWord hostOrder ((bytes.drop position).take hostWidth) = number

def NameAt (bytes : Bytes) (position : Nat) (text : String) : Prop :=
  ∃ offset, bytes.WordAt position offset ∧ bytes.TextAt offset text

end Bytes

/-! ## Faults of the payload -/

/-- What a fault says of a payload. The offset of a bad text is one that the payload holds. -/
def BlobError.ShownBy (payload : Bytes) : BlobError → Prop
  | unexpectedEnd offset needed =>
    offset ≤ payload.length ∧ payload.length < offset + needed
  | stringOutOfRange offset length =>
    (∃ position, payload.WordAt position offset) ∧
      length = payload.length ∧ payload.length < offset
  | unterminatedString offset =>
    (∃ position, payload.WordAt position offset) ∧
      offset ≤ payload.length ∧ 0 ∉ payload.drop offset
  | invalidUtf8 offset =>
    (∃ position, payload.WordAt position offset) ∧ 0 ∈ payload.drop offset ∧
      ∀ text, Bytes.ofString text ≠ (payload.drop offset).takeWhile (· != 0)
  | badHeader _ | valueOverflow .. | interiorNul _ => False

/-! ## Faults of the table -/

namespace Bytes

/-- Some entries, fewer than are counted, stand behind the count, and the next one is to start
at a position. -/
structure EntryAfter (payload : Bytes) (before : List TableEntry) (count start : Nat) : Prop where
  counted : payload.WordAt 0 count
  more : before.length < count
  fits : ∀ entry ∈ before, entry.Fits .host
  stand : before.flatMap (TableEntry.toBytes .host) <+: payload.drop hostWidth
  start_eq : start = hostWidth + (before.flatMap (TableEntry.toBytes .host)).length

def EntryAt (payload : Bytes) (count start : Nat) : Prop :=
  ∃ before, payload.EntryAfter before count start

structure HeadAt (payload : Bytes) (start : Nat) (kind : TypeKind) (name : String) : Prop where
  kind : payload[start + 8]? = some kind.toByte
  name : payload.NameAt (start + 9) name

/-- One of the fields that an entry announces starts at a position, and all before it are read. -/
def FieldAt (payload : Bytes) (typeCount : Nat) (typeName : String) (position : Nat) : Prop :=
  ∃ start kind count index,
    payload.EntryAt typeCount start ∧ payload.HeadAt start kind typeName ∧
      kind.hasFields = true ∧ payload.WordAt (start + 25) count ∧ index < count ∧
      position = start + 33 + index * fieldLength

end Bytes

def TypeKind.memberLength : TypeKind → Nat
  | base => 0
  | struct | union => fieldLength
  | enum => enumeratorLength

/-- What an error says of the payload behind the framing. -/
def LoadError.ShownBy (payload : Bytes) : LoadError → Prop
  | blob fault => fault.ShownBy payload
  | unknownKind offset byte =>
    payload[offset]? = some byte ∧ ¬ (1 ≤ byte.toNat ∧ byte.toNat ≤ 4) ∧
      ∃ count start, payload.EntryAt count start ∧ offset = start + 8
  | typeCountTooLarge count remaining =>
    payload.WordAt 0 count ∧ remaining = payload.length - hostWidth ∧
      remaining < count * entryLeast
  | memberCountTooLarge typeName count remaining =>
    ∃ typeCount start kind,
      payload.EntryAt typeCount start ∧ payload.HeadAt start kind typeName ∧
        payload.WordAt (start + 25) count ∧ remaining = payload.length - (start + 33) ∧
        remaining < count * kind.memberLength
  | typeIdOutOfRange id count =>
    count < id ∧ ∃ start, payload.EntryAt count start ∧ payload.WordAt start id
  | fieldTypeOutOfRange typeName fieldName id count =>
    count < id ∧ ∃ position, payload.FieldAt count typeName position ∧
      payload.NameAt position fieldName ∧ payload.WordAt (position + 29) id

/-! ## Faults of the framing -/

def BlobError.ShownByFraming (framing : Framing) (bytes : Bytes) : BlobError → Prop
  | unexpectedEnd offset needed =>
    bytes.take 4 = headerMagic ∧ bytes.length < headerLength ∧
      offset = bytes.length ∧ offset + needed = headerLength
  | badHeader .missingMagic => framing = .framed ∧ bytes.take 4 ≠ headerMagic
  | badHeader (.unknownByteOrder tag) =>
    bytes.take 4 = headerMagic ∧ bytes[6]? = some tag ∧ tag ≠ 0 ∧ tag ≠ 1
  | badHeader (.foreignVersion version) =>
    bytes.take 4 = headerMagic ∧ bytes[4]? = some version ∧ version ≠ formatVersion
  | badHeader (.foreignWidth width) =>
    bytes.take 4 = headerMagic ∧ bytes[5]? = some width ∧ width.toNat ≠ hostWidth
  | badHeader (.foreignByteOrder order) =>
    bytes.take 4 = headerMagic ∧ bytes[6]? = some order.toTag ∧ order ≠ hostOrder
  | badHeader (.unsupportedWidth _) | stringOutOfRange .. | unterminatedString _
  | invalidUtf8 _ | valueOverflow .. | interiorNul _ => False

/-- What an error says of the bytes that are loaded: it is shown by the payload behind the
framing, or it is a fault of the framing itself. -/
def LoadError.TrueOf (framing : Framing) (bytes : Bytes) (error : LoadError) : Prop :=
  (∃ payload, framing.payload bytes = .ok payload ∧ error.ShownBy payload) ∨
  framing ≠ .raw ∧ ∃ fault, error = .blob fault ∧ fault.ShownByFraming framing bytes

end TypeAtlas
