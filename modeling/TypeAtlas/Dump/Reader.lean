import TypeAtlas.Dump.Directive
import TypeAtlas.Note

/-!
# Reading a dump

The directives of a dump build up one type after another. A type stays open until the next
one begins, and a member stays open until the next member or type begins. Types and
members without a name are dropped when they are closed, and so are members that no type
was open for.
-/

namespace TypeAtlas

namespace Dump

inductive Member where
  | field (definition : FieldDef)
  | enumerator (definition : EnumeratorDef)
  deriving DecidableEq, Repr

structure State where
  arch : Option UInt64
  types : List TypeDef
  /-- The type that is open. -/
  current : Option TypeDef
  /-- The member that is open. -/
  member : Option Member
  deriving DecidableEq, Repr

namespace State

def empty : State := ⟨none, [], none, none⟩

def bareType (kind : TypeKind) : TypeDef := ⟨"", kind, 0, [], [], []⟩

def bareField : FieldDef := ⟨"", "", 0, 0, 0, false, false⟩

def bareEnumerator : EnumeratorDef := ⟨"", 0⟩

/-- Add a member to a type, unless it has no name. -/
def addMember (ty : TypeDef) : Member → TypeDef
  | .field definition =>
    if definition.name = "" then ty else { ty with fields := ty.fields ++ [definition] }
  | .enumerator definition =>
    if definition.name = "" then ty
    else { ty with enumerators := ty.enumerators ++ [definition] }

def closeMember (state : State) : State :=
  match state.member, state.current with
  | some member, some ty => { state with member := none, current := some (addMember ty member) }
  | _, _ => { state with member := none }

def closeType (state : State) : State :=
  let state := state.closeMember
  match state.current with
  | none => state
  | some ty =>
    { state with
      current := none
      types := if ty.name = "" then state.types else state.types ++ [ty] }

def editField (state : State) (edit : FieldDef → FieldDef) : State :=
  match state.member with
  | some (.field definition) => { state with member := some (.field (edit definition)) }
  | _ => state

def editEnumerator (state : State) (edit : EnumeratorDef → EnumeratorDef) : State :=
  match state.member with
  | some (.enumerator definition) =>
    { state with member := some (.enumerator (edit definition)) }
  | _ => state

def editType (state : State) (edit : TypeDef → TypeDef) : State :=
  { state with current := state.current.map edit }

/-- A name goes to the open member, and to the open type when no member is open. -/
def setName (state : State) (text : String) : State :=
  match state.member with
  | some (.field _) => state.editField fun definition => { definition with name := text }
  | some (.enumerator _) =>
    state.editEnumerator fun definition => { definition with name := text }
  | none => state.editType fun ty => { ty with name := text }

def step (state : State) : Directive → State
  | .blank | .unknown _ => state
  | .arch none => state
  | .arch (some width) => { state with arch := some width }
  | .type kind => { state.closeType with current := some (bareType kind) }
  | .field => { state.closeMember with member := some (.field bareField) }
  | .enumerator => { state.closeMember with member := some (.enumerator bareEnumerator) }
  | .name text => state.setName text
  | .otherName text => state.editType fun ty => { ty with aliases := ty.aliases ++ [text] }
  | .size value => state.editType fun ty => { ty with size := value }
  | .enumeratorName text => state.editEnumerator fun e => { e with name := text }
  | .enumeratorValue value => state.editEnumerator fun e => { e with value := value }
  | .fieldType text => state.editField fun f => { f with typeName := text }
  | .fieldOffset value => state.editField fun f => { f with offset := value }
  | .fieldPointers value => state.editField fun f => { f with pointerDepth := value }
  | .fieldArray value => state.editField fun f => { f with arraySize := value }
  | .fieldConst value => state.editField fun f => { f with isConst := value }
  | .fieldRecord value => state.editField fun f => { f with isRecord := value }

def finish (state : State) : Schema :=
  let closed := state.closeType
  ⟨closed.arch, closed.types⟩

end State

def ofDirectives (lines : List Directive) : Schema :=
  (lines.foldl State.step State.empty).finish

def parse (text : String) : Schema := ofDirectives (directives text)

/-- One note for each keyword that no directive has. -/
def notes (text : String) : List Note :=
  (directives text).filterMap fun
    | .unknown keyword => some (.unknownKeyword keyword)
    | _ => none

end Dump

end TypeAtlas
