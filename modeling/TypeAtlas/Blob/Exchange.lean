import TypeAtlas.Blob.Cursor
import TypeAtlas.Blob.Writer

/-!
# Writing and reading back

Writers and cursors take operations one after the other. Here is what such a run answers and
leaves behind, and what it means that a write is carried out as a target allows and that a
reading gives back what was written.
-/

namespace TypeAtlas

/-- The answers to some operations, each on what the one before it left, and what the last one
leaves. -/
def performAll (perform : σ → ι → α × σ) (state : σ) : List ι → List α × σ
  | [] => ([], state)
  | operation :: later =>
    let (answer, next) := perform state operation
    let (answers, last) := performAll perform next later
    (answer :: answers, last)

namespace Writer

/-- Perform operations in order; a refused one does not keep the later ones from being tried. -/
def run (writer : Writer) (operations : List Operation) :
    List (Except BlobError Unit) × Writer :=
  performAll perform writer operations

end Writer

namespace Cursor

def run (cursor : Cursor) (operations : List Operation) :
    List (Except BlobError Reading) × Cursor :=
  performAll perform cursor operations

end Cursor

namespace Writer.Operation

/-! ## What a target allows -/

/-- Only words of four bytes can be too small for a number. A signed number may be given as
the unsigned one with the same digits, so theirs reach as far as those of both kinds. -/
def Admitted (target : Target) : Operation → Prop
  | .word value => target.width = .four → value.toNat < 4294967296
  | .signed value =>
    target.width = .four → -2147483648 ≤ value.toInt ∧ value.toInt < 4294967296
  | _ => True

def width (target : Target) : Operation → Nat
  | .byte _ | .flag _ => 1
  | .half _ => 4
  | .word _ | .signed _ => target.width.bytes
  | .bytes value => value.length

/-- The bytes hold the value in the order of the target, a signed one modulo the words that
there are. -/
def StoredBy (target : Target) : Operation → Bytes → Prop
  | .byte value, stored => stored = [value]
  | .flag value, stored => stored = [if value then 1 else 0]
  | .half value, stored => Bytes.toWord target.order stored = value.toNat
  | .word value, stored => Bytes.toWord target.order stored = value.toNat
  | .signed value, stored =>
    (Bytes.toWord target.order stored : Int) =
      value.toInt % Bytes.wordCount target.width.bytes
  | .bytes value, stored => stored = value

/-! ## Reading back -/

/-- A request for a value of the kind that was written. Signed words have no request of their
own. -/
def AskedBy : Operation → Cursor.Operation → Prop
  | .byte _, .byte | .flag _, .flag | .half _, .half | .word _, .word | .signed _, .word => True
  | .bytes value, .bytes count => count.toNat = value.length
  | _, _ => False

/-- The value that was written, a signed one by its digits. -/
def GivenBackBy : Operation → Cursor.Reading → Prop
  | .byte value, .byte got => got = value
  | .flag value, .flag got => got = value
  | .half value, .half got => got = value
  | .word value, .word got => got = value
  | .signed value, .word got => got.toInt64 = value
  | .bytes value, .bytes got => got = value
  | _, _ => False

end Writer.Operation

/-- How a writer may take an operation: it answers well exactly if its target allows the value,
it then has the bytes of the value behind those it had, and otherwise it is as it was. -/
structure Writer.Takes (writer : Writer) (operation : Operation)
    (answer : Except BlobError Unit) (next : Writer) : Prop where
  accepted_iff : answer = .ok () ↔ operation.Admitted writer.target
  appends : answer = .ok () → ∃ stored,
    next = { writer with bytes := writer.bytes ++ stored } ∧
      stored.length = operation.width writer.target ∧ operation.StoredBy writer.target stored
  keeps : answer ≠ .ok () → next = writer

end TypeAtlas
