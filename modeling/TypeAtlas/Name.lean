/-!
# Names

A name read from a blob is either a piece of the blob's bytes or a copy of it. The two
are alike in every look-up; which of them a name is stays visible.
-/

namespace TypeAtlas

/-- A name together with whether it is held apart from the bytes it was read from. -/
structure Name where
  text : String
  owned : Bool
  deriving DecidableEq, Repr, Inhabited

namespace Name

def detach (name : Name) : Name := { name with owned := true }

@[simp] theorem text_detach (name : Name) : name.detach.text = name.text := rfl

end Name

end TypeAtlas
