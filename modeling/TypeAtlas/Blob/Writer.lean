import TypeAtlas.Blob.Target

/-!
# Writer

A growing byte string for one target. A refused write leaves it as it was.
-/

namespace TypeAtlas

structure Writer where
  target : Target
  bytes : Bytes
  deriving DecidableEq, Repr

namespace Writer

inductive Operation where
  | byte (value : UInt8)
  | flag (value : Bool)
  | half (value : UInt32)
  | word (value : UInt64)
  | signed (value : Int64)
  | bytes (value : Bytes)
  deriving DecidableEq, Repr

def ofOptions (options : WriterOptions) : Except BlobError Writer :=
  (Target.ofOptions options).map fun target => ⟨target, []⟩

def offset (writer : Writer) : Nat := writer.bytes.length

def encode (target : Target) : Operation → Except BlobError Bytes
  | .byte value => .ok [value]
  | .flag value => .ok [if value then 1 else 0]
  | .half value => .ok (target.half value)
  | .word value => target.word value
  | .signed value => target.signedWord value
  | .bytes value => .ok value

def write (writer : Writer) (operation : Operation) : Except BlobError Writer :=
  (encode writer.target operation).map fun bytes =>
    { writer with bytes := writer.bytes ++ bytes }

/-- Perform one operation; a refused one changes nothing. -/
def perform (writer : Writer) (operation : Operation) : Except BlobError Unit × Writer :=
  match writer.write operation with
  | .ok next => (.ok (), next)
  | .error fault => (.error fault, writer)

end Writer

end TypeAtlas
