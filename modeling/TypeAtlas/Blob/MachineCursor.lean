import TypeAtlas.Blob.Exchange

/-!
# A cursor on machine words

The cursor again, with its position in a machine word. Sums and products are checked before
they are compared with a length: one that no machine word holds reaches past every end.
-/

namespace TypeAtlas

namespace MachineWord

/-- A result that has been formed in a word, if it is the exact one. -/
def checked? (exact : Nat) (formed : UInt64) : Option UInt64 :=
  if exact < UInt64.size then some formed else none

def sum? (left right : UInt64) : Option UInt64 :=
  checked? (left.toNat + right.toNat) (left + right)

def product? (left right : UInt64) : Option UInt64 :=
  checked? (left.toNat * right.toNat) (left * right)

end MachineWord

structure MachineCursor where
  buffer : Array UInt8
  offset : UInt64
  copies : Bool
  deriving DecidableEq, Repr

namespace MachineCursor

def start (payload : Bytes) (copies : Bool) : MachineCursor := ⟨payload.toArray, 0, copies⟩

def exact (cursor : MachineCursor) : Cursor := ⟨cursor.buffer, cursor.offset.toNat, cursor.copies⟩

def length (cursor : MachineCursor) : UInt64 := UInt64.ofNat cursor.buffer.size

/-- Behind the end nothing remains; the difference does not go round. -/
def remaining (cursor : MachineCursor) : UInt64 :=
  if cursor.offset ≤ cursor.length then cursor.length - cursor.offset else 0

def hasRoom (cursor : MachineCursor) (count least : UInt64) : Bool :=
  (MachineWord.product? count least).any (· ≤ cursor.remaining)

def readBytes (cursor : MachineCursor) (count : UInt64) :
    Except BlobError (Bytes × MachineCursor) :=
  match (MachineWord.sum? cursor.offset count).filter (· ≤ cursor.length) with
  | some stop =>
    .ok ((cursor.buffer.extract cursor.offset.toNat stop.toNat).toList,
      { cursor with offset := stop })
  | none => .error (.unexpectedEnd cursor.offset.toNat count.toNat)

def readNumber (cursor : MachineCursor) (width : UInt64) :
    Except BlobError (Nat × MachineCursor) :=
  (cursor.readBytes width).map fun (bytes, next) => (Bytes.toWord hostOrder bytes, next)

/-- A name is found by comparing positions; nothing is added to them. -/
def nameAt (cursor : MachineCursor) (offset : UInt64) : Except BlobError Name :=
  cursor.exact.nameAt offset.toNat

def settle (cursor : MachineCursor) (wrap : α → Cursor.Reading) :
    Except BlobError (α × MachineCursor) → Except BlobError Cursor.Reading × MachineCursor
  | .ok (value, next) => (.ok (wrap value), next)
  | .error fault => (.error fault, cursor)

def perform (cursor : MachineCursor) :
    Cursor.Operation → Except BlobError Cursor.Reading × MachineCursor
  | .byte => cursor.settle (.byte ∘ UInt8.ofNat) (cursor.readNumber 1)
  | .flag => cursor.settle (fun number => .flag (number != 0)) (cursor.readNumber 1)
  | .half => cursor.settle (.half ∘ UInt32.ofNat) (cursor.readNumber 4)
  | .word => cursor.settle (.word ∘ UInt64.ofNat) (cursor.readNumber 8)
  | .bytes count => cursor.settle .bytes (cursor.readBytes count)
  | .nameAt offset => ((cursor.nameAt offset).map .name, cursor)
  | .name =>
    match cursor.readNumber 8 with
    | .error fault => (.error fault, cursor)
    | .ok (number, next) => ((next.nameAt (UInt64.ofNat number)).map .name, next)
  | .hasRoom count least => (.ok (.room (cursor.hasRoom count least)), cursor)

def run (cursor : MachineCursor) (operations : List Cursor.Operation) :
    List (Except BlobError Cursor.Reading) × MachineCursor :=
  performAll perform cursor operations

end MachineCursor

end TypeAtlas
