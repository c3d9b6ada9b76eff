import TypeAtlas.Blob.Error

/-!
# String pool

Distinct texts one behind the other, each closed by one NUL, with the offset at which
each starts. A text that holds a NUL itself is refused.
-/

namespace TypeAtlas

structure StringPool where
  bytes : Bytes
  offsets : List (String × Nat)
  deriving DecidableEq, Repr

namespace StringPool

def empty : StringPool := ⟨[], []⟩

/-- The offset of a text, which is appended when it is new. -/
def intern (pool : StringPool) (text : String) : Except BlobError (Nat × StringPool) :=
  match pool.offsets.lookup text with
  | some offset => .ok (offset, pool)
  | none =>
    if '\x00' ∈ text.toList then .error (.interiorNul text)
    else
      let offset := pool.bytes.length
      .ok (offset,
        { bytes := pool.bytes ++ Bytes.ofString text ++ [0]
          offsets := pool.offsets ++ [(text, offset)] })

/-- Intern a text and forget a refusal. -/
def add (pool : StringPool) (text : String) : StringPool :=
  match pool.intern text with
  | .ok (_, next) => next
  | .error _ => pool

end StringPool

end TypeAtlas
