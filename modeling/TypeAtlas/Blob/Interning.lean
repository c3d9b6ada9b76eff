import TypeAtlas.Blob.Exchange
import TypeAtlas.Blob.StringPool

/-!
# Interning in place

A pool that is changed in place, one step after the other. What a call has done to the pool stays,
also if it then refuses its text.
-/

namespace TypeAtlas

namespace StringPool

/-- The offset of a text, whose bytes and NUL are put behind the others when it is new. -/
def internInPlace (text : String) : ExceptT BlobError (StateM StringPool) Nat := do
  let pool ← get
  match pool.offsets.lookup text with
  | some offset => return offset
  | none =>
    if '\x00' ∈ text.toList then throw (.interiorNul text)
    else
      let offset := pool.bytes.length
      modify fun pool => { pool with bytes := pool.bytes ++ Bytes.ofString text }
      modify fun pool => { pool with bytes := pool.bytes ++ [0] }
      modify fun pool => { pool with offsets := pool.offsets ++ [(text, offset)] }
      return offset

def perform (pool : StringPool) (text : String) : Except BlobError Nat × StringPool :=
  (internInPlace text).run.run pool

def run (pool : StringPool) (texts : List String) : List (Except BlobError Nat) × StringPool :=
  performAll perform pool texts

/-- A cursor over a buffer that ends with the pool reads the text at the offset, as a copy if it
makes copies. -/
def Gives (pool : StringPool) (offset : Nat) (text : String) : Prop :=
  ∀ (front : Bytes) (cursor : Cursor), cursor.content = front ++ pool.bytes →
    cursor.nameAt (front.length + offset) = .ok ⟨text, cursor.copies⟩

end StringPool

end TypeAtlas
