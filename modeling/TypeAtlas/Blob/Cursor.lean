import TypeAtlas.Blob.Header
import TypeAtlas.Name

/-!
# Cursor

A bounds-checked reader over a payload. Fixed-width reads move it past what they decode;
names are stored elsewhere in the payload, so a name read moves it past the offset word
only. `perform` runs one operation and says where the cursor stands afterwards, also when
the operation fails.

The payload is an array, so that every position is reached at once; `content` is the same
bytes as a list, in which the reads are stated.
-/

namespace TypeAtlas

structure Cursor where
  buffer : Array UInt8
  offset : Nat
  /-- Names read are held apart from the buffer. -/
  copies : Bool
  deriving DecidableEq, Repr

namespace Cursor

def start (payload : Bytes) (copies : Bool) : Cursor := ⟨payload.toArray, 0, copies⟩

def content (cursor : Cursor) : Bytes := cursor.buffer.toList

def length (cursor : Cursor) : Nat := cursor.buffer.size

def remaining (cursor : Cursor) : Nat := cursor.length - cursor.offset

def atEnd (cursor : Cursor) : Bool := cursor.length ≤ cursor.offset

/-- Could this many records of at least this many bytes each still follow? -/
def hasRoom (cursor : Cursor) (count least : Nat) : Bool := count * least ≤ cursor.remaining

/-! ## Fixed-width reads -/

def readBytes (cursor : Cursor) (count : Nat) : Except BlobError (Bytes × Cursor) :=
  let stop := cursor.offset + count
  if stop ≤ cursor.length then
    .ok ((cursor.buffer.extract cursor.offset stop).toList, { cursor with offset := stop })
  else .error (.unexpectedEnd cursor.offset count)

def readNumber (cursor : Cursor) (width : Nat) : Except BlobError (Nat × Cursor) :=
  (cursor.readBytes width).map fun (bytes, next) => (Bytes.toWord hostOrder bytes, next)

def readByte (cursor : Cursor) : Except BlobError (UInt8 × Cursor) :=
  (cursor.readNumber 1).map fun (number, next) => (UInt8.ofNat number, next)

def readFlag (cursor : Cursor) : Except BlobError (Bool × Cursor) :=
  (cursor.readNumber 1).map fun (number, next) => (number != 0, next)

def readHalf (cursor : Cursor) : Except BlobError (UInt32 × Cursor) :=
  (cursor.readNumber 4).map fun (number, next) => (UInt32.ofNat number, next)

def readWord (cursor : Cursor) : Except BlobError (UInt64 × Cursor) :=
  (cursor.readNumber hostWidth).map fun (number, next) => (UInt64.ofNat number, next)

/-! ## Names -/

/-- The name that starts at an offset of the buffer and runs to the next NUL. -/
def nameAt (cursor : Cursor) (offset : Nat) : Except BlobError Name :=
  if cursor.length < offset then .error (.stringOutOfRange offset cursor.length)
  else
    let tail := (cursor.buffer.extract offset).toList
    if tail.contains 0 then
      match Bytes.toString? (tail.takeWhile (· != 0)) with
      | some text => .ok ⟨text, cursor.copies⟩
      | none => .error (.invalidUtf8 offset)
    else .error (.unterminatedString offset)

def readName (cursor : Cursor) : Except BlobError (Name × Cursor) := do
  let (offset, next) ← cursor.readWord
  let name ← next.nameAt offset.toNat
  return (name, next)

/-! ## Reads in terms of the content -/

@[simp] theorem content_start (payload : Bytes) (copies : Bool) :
    (start payload copies).content = payload := rfl

@[simp] theorem length_content (cursor : Cursor) : cursor.content.length = cursor.length := by
  simp [content, length]

theorem readBytes_eq (cursor : Cursor) (count : Nat) :
    cursor.readBytes count =
      if cursor.offset + count ≤ cursor.content.length then
        .ok ((cursor.content.drop cursor.offset).take count,
          { cursor with offset := cursor.offset + count })
      else .error (.unexpectedEnd cursor.offset count) := by
  simp only [readBytes, length_content]
  split
  · next h => simp [content, List.take_drop]
  · rfl

theorem nameAt_eq (cursor : Cursor) (offset : Nat) :
    cursor.nameAt offset =
      if cursor.content.length < offset then
        .error (.stringOutOfRange offset cursor.content.length)
      else if (cursor.content.drop offset).contains 0 then
        match Bytes.toString? ((cursor.content.drop offset).takeWhile (· != 0)) with
        | some text => .ok ⟨text, cursor.copies⟩
        | none => .error (.invalidUtf8 offset)
      else .error (.unterminatedString offset) := by
  have htail : (cursor.buffer.extract offset).toList = cursor.content.drop offset := by
    simp only [Array.toList_extract, List.extract_eq_take_drop, content]
    exact List.take_of_length_le (by simp)
  simp only [nameAt, htail, length_content]

/-- A name is read where a text stands that a NUL closes, and nowhere else. -/
theorem nameAt_eq_ok_iff {cursor : Cursor} {offset : Nat} {name : Name} :
    cursor.nameAt offset = .ok name ↔
      Bytes.TextAt cursor.content offset name.text ∧ name.owned = cursor.copies := by
  rw [nameAt_eq, Bytes.textAt_iff]
  constructor
  · intro h
    split at h
    · cases h
    · split at h
      · next hzero =>
        split at h
        · next text htext =>
          cases h
          exact ⟨⟨by simpa using hzero, htext⟩, rfl⟩
        · cases h
      · cases h
  · rintro ⟨⟨hzero, htext⟩, howned⟩
    have hin : ¬ cursor.content.length < offset := by
      intro hout
      rw [List.drop_eq_nil_of_le (by omega)] at hzero
      cases hzero
    obtain ⟨text, owned⟩ := name
    simp_all

/-! ## Runs of operations -/

inductive Operation where
  | byte
  | flag
  | half
  | word
  | bytes (count : UInt64)
  | nameAt (offset : UInt64)
  | name
  | hasRoom (count least : UInt64)
  deriving DecidableEq, Repr

inductive Reading where
  | byte (value : UInt8)
  | flag (value : Bool)
  | half (value : UInt32)
  | word (value : UInt64)
  | bytes (value : Bytes)
  | name (value : Name)
  | room (value : Bool)
  deriving DecidableEq, Repr

/-- The reading with the cursor behind it, or the fault with the cursor where it was. -/
def settle (cursor : Cursor) (wrap : α → Reading) :
    Except BlobError (α × Cursor) → Except BlobError Reading × Cursor
  | .ok (value, next) => (.ok (wrap value), next)
  | .error fault => (.error fault, cursor)

/-- Run one operation; a bad name leaves the cursor behind its offset word. -/
def perform (cursor : Cursor) : Operation → Except BlobError Reading × Cursor
  | .byte => cursor.settle .byte cursor.readByte
  | .flag => cursor.settle .flag cursor.readFlag
  | .half => cursor.settle .half cursor.readHalf
  | .word => cursor.settle .word cursor.readWord
  | .bytes count => cursor.settle .bytes (cursor.readBytes count.toNat)
  | .nameAt offset =>
    ((cursor.nameAt offset.toNat).map .name, cursor)
  | .name =>
    match cursor.readWord with
    | .error fault => (.error fault, cursor)
    | .ok (offset, next) =>
      ((next.nameAt offset.toNat).map .name, next)
  | .hasRoom count least => (.ok (.room (cursor.hasRoom count.toNat least.toNat)), cursor)

end Cursor

end TypeAtlas
