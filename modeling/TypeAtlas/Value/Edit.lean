import TypeAtlas.Value.View

/-!
# Edits of a field

A run of writes through one view, each with what it leaves at the front of the field.
-/

namespace TypeAtlas

inductive FieldEdit where
  | write (scalar : Scalar) (number : Int)
  | writeElement (scalar : Scalar) (index : Nat) (number : Int)
  | fill (byte : UInt8)
  deriving DecidableEq, Repr

inductive EditOutcome where
  /-- Was the number stored, and which number of its type stands at the front now? -/
  | wrote (stored : Bool) (front : Option Int)
  | filled
  deriving DecidableEq, Repr

namespace FieldView

def edit (view : FieldView) : FieldEdit → EditOutcome × FieldView
  | .write scalar number =>
    let (stored, view) := view.write scalar number
    (.wrote stored (view.read scalar), view)
  | .writeElement scalar index number =>
    let (stored, view) := view.writeElement scalar index number
    (.wrote stored (view.read scalar), view)
  | .fill byte => (.filled, view.fill byte)

def editAll (view : FieldView) : List FieldEdit → List EditOutcome × FieldView
  | [] => ([], view)
  | first :: rest =>
    let (outcome, view) := view.edit first
    let (outcomes, view) := view.editAll rest
    (outcome :: outcomes, view)

end FieldView

end TypeAtlas
