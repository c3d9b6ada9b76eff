import TypeAtlas.Registry.Basic
import TypeAtlas.Value.Scalar

/-!
# Field views

A value is a byte string with a record that says how it is laid out. A view picks out the
bytes of one field; it exists only if the whole field lies inside the value. Numbers are
read from and written to those bytes, one at the front or an element of an array, and
what a write changes is seen in the whole value.
-/

namespace TypeAtlas

namespace Bytes

def slice (bytes : Bytes) (offset count : Nat) : Bytes := (bytes.drop offset).take count

def overwrite (bytes : Bytes) (offset : Nat) (replacement : Bytes) : Bytes :=
  bytes.take offset ++ replacement ++ bytes.drop (offset + replacement.length)

theorem length_slice {bytes : Bytes} {offset count : Nat} (h : offset + count ≤ bytes.length) :
    (bytes.slice offset count).length = count := by
  simp [slice]
  omega

theorem length_overwrite {bytes replacement : Bytes} {offset : Nat}
    (h : offset + replacement.length ≤ bytes.length) :
    (bytes.overwrite offset replacement).length = bytes.length := by
  simp [overwrite]
  omega

/-- What was put somewhere is found there. -/
theorem slice_overwrite {bytes replacement : Bytes} {offset : Nat}
    (h : offset + replacement.length ≤ bytes.length) :
    (bytes.overwrite offset replacement).slice offset replacement.length = replacement := by
  have htake : (bytes.take offset).length = offset := by
    simp
    omega
  have hdrop (rest : Bytes) : (bytes.take offset ++ rest).drop offset = rest :=
    List.drop_left' htake
  simp only [slice, overwrite, List.append_assoc, hdrop]
  simp

end Bytes

namespace Registry

/-- Bytes that a field covers: a word for each pointer, else the size of its type for each
element, which is zero while the type is not known. None if no word holds the number. -/
def extent? (registry : Registry) (field : Field) : Option Nat :=
  let element :=
    if field.isPointer then hostWidth
    else match registry.typeOfField? field with
      | some ty => ty.size.toNat
      | none => 0
  let total := element * max field.arraySize.toNat 1
  if total < UInt64.size then some total else none

def span? (registry : Registry) (field : Field) (length : Nat) : Option (Nat × Nat) := do
  let extent ← registry.extent? field
  let stop := field.offset.toNat + extent
  if stop < UInt64.size ∧ stop ≤ length then some (field.offset.toNat, extent) else none

end Registry

structure FieldView where
  field : Field
  /-- The type of the field, if it is known. -/
  type : Option TypeRecord
  /-- The whole value that holds the field. -/
  value : Bytes
  start : Nat
  length : Nat
  deriving DecidableEq, Repr

namespace FieldView

def bytes (view : FieldView) : Bytes := view.value.slice view.start view.length

/-! ## Reading -/

def readAt (view : FieldView) (scalar : Scalar) (offset : Nat) : Option Int :=
  if offset + scalar.size ≤ view.length then
    some (scalar.ofBytes (view.value.slice (view.start + offset) scalar.size))
  else none

def read (view : FieldView) (scalar : Scalar) : Option Int := view.readAt scalar 0

def readElement (view : FieldView) (scalar : Scalar) (index : Nat) : Option Int :=
  view.readAt scalar (index * scalar.size)

/-! ## Writing -/

/-- Store a number at an offset of the field; it is refused when it does not fit there. -/
def writeAt (view : FieldView) (scalar : Scalar) (offset : Nat) (number : Int) :
    Bool × FieldView :=
  if offset + scalar.size ≤ view.length then
    (true, { view with
      value := view.value.overwrite (view.start + offset) (scalar.toBytes number) })
  else (false, view)

def write (view : FieldView) (scalar : Scalar) (number : Int) : Bool × FieldView :=
  view.writeAt scalar 0 number

def writeElement (view : FieldView) (scalar : Scalar) (index : Nat) (number : Int) :
    Bool × FieldView :=
  view.writeAt scalar (index * scalar.size) number

/-- Put other bytes in the place of the field's; as many as the field has are taken. -/
def replace (view : FieldView) (bytes : Bytes) : FieldView :=
  { view with value := view.value.overwrite view.start (bytes.take view.length) }

def fill (view : FieldView) (byte : UInt8) : FieldView :=
  view.replace (List.replicate view.length byte)

/-- A number that the type holds is read back from where it was stored. -/
theorem readAt_writeAt {view : FieldView} {scalar : Scalar} {offset : Nat} {number : Int}
    (hview : view.start + view.length ≤ view.value.length)
    (hfits : offset + scalar.size ≤ view.length) (hholds : scalar.holds number) :
    (view.writeAt scalar offset number).2.readAt scalar offset = some number := by
  have hlength : (scalar.toBytes number).length = scalar.size := scalar.length_toBytes number
  have hinside : view.start + offset + (scalar.toBytes number).length ≤ view.value.length := by
    omega
  have hslice := Bytes.slice_overwrite hinside
  rw [hlength] at hslice
  simp only [writeAt, readAt, if_pos hfits, hslice, Scalar.ofBytes_toBytes hholds]

theorem writeAt_of_not_fits {view : FieldView} {scalar : Scalar} {offset : Nat} {number : Int}
    (h : ¬ offset + scalar.size ≤ view.length) :
    view.writeAt scalar offset number = (false, view) := by
  rw [writeAt, if_neg h]

end FieldView

namespace Registry

def view? (registry : Registry) (value : Bytes) (name : String) (type : TypeRecord) :
    Option FieldView := do
  let field ← type.field? name
  let (start, length) ← registry.span? field value.length
  return ⟨field, registry.typeOfField? field, value, start, length⟩

/-- The offset of a field by its record alone: no bytes are looked at, and only the start
of the field is known to lie inside the value. -/
def fieldOffset? (type : TypeRecord) (name : String) : Option Nat := do
  let field ← type.field? name
  if field.offset ≤ type.size then some field.offset.toNat else none

end Registry

end TypeAtlas
