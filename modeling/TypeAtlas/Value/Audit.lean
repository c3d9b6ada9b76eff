import TypeAtlas.Registry.Demand
import TypeAtlas.Value.View

/-!
# Audited field views

Views and accesses with what they take of memory once the checks in front are passed: the part of
the value that a view is of, and the bytes that a number is copied from or to. An access is to the
bytes of its view alone, and a write answers with what these are afterwards.
-/

namespace TypeAtlas

namespace Scalar

/-- The front of some bytes is taken, and it is as long as the number. -/
def demands (scalar : Scalar) (bytes : Bytes) : List Demand :=
  [.slice 0 scalar.size bytes.length, .copy (bytes.take scalar.size).length scalar.size]

def auditedRead (scalar : Scalar) (bytes : Bytes) : List Demand × Option Int :=
  (scalar.demands bytes, some (scalar.ofBytes (bytes.take scalar.size)))

def auditedWrite (scalar : Scalar) (bytes : Bytes) (number : Int) : List Demand × Bytes :=
  (scalar.demands bytes, bytes.overwrite 0 (scalar.toBytes number))

end Scalar

def Registry.auditedView? (registry : Registry) (value : Bytes) (name : String)
    (type : TypeRecord) : List Demand × Option FieldView :=
  match type.field? name with
  | none => ([], none)
  | some field =>
    match registry.span? field value.length with
    | none => ([], none)
    | some (start, length) =>
      ([.slice start (start + length) value.length],
        some ⟨field, registry.typeOfField? field, value, start, length⟩)

namespace FieldView

def auditedRead (view : FieldView) (scalar : Scalar) : List Demand × Option Int :=
  if scalar.size ≤ view.bytes.length then scalar.auditedRead view.bytes else ([], none)

def auditedReadElement (view : FieldView) (scalar : Scalar) (index : Nat) :
    List Demand × Option Int :=
  let start := index * scalar.size
  if start + scalar.size ≤ view.bytes.length then
    scalar.auditedRead (view.bytes.slice start scalar.size)
  else ([], none)

def auditedWrite (view : FieldView) (scalar : Scalar) (number : Int) :
    List Demand × (Bool × Bytes) :=
  if scalar.size ≤ view.bytes.length then
    let (demands, bytes) := scalar.auditedWrite view.bytes number
    (demands, (true, bytes))
  else ([], (false, view.bytes))

def auditedWriteElement (view : FieldView) (scalar : Scalar) (index : Nat) (number : Int) :
    List Demand × (Bool × Bytes) :=
  let start := index * scalar.size
  if start + scalar.size ≤ view.bytes.length then
    let (demands, element) := scalar.auditedWrite (view.bytes.slice start scalar.size) number
    (demands, (true, view.bytes.overwrite start element))
  else ([], (false, view.bytes))

end FieldView

end TypeAtlas
