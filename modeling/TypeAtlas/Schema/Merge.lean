import TypeAtlas.Note
import TypeAtlas.Schema.Basic

/-!
# Merging schemas

Types are collected under their names: a name keeps the position at which it first came,
and with it its id, and takes the last definition given for it. Where each name stands is
kept beside the types. The pointer width is the last one given.
-/

namespace TypeAtlas

structure Merge where
  arch : Option UInt64
  types : List TypeDef
  /-- Where the type of each name stands. -/
  positions : List (String × Nat)
  deriving DecidableEq, Repr

namespace Merge

def empty : Merge := ⟨none, [], []⟩

/-- A definition takes the place that its name has, or goes behind all others. -/
def addType (merge : Merge) (ty : TypeDef) : Merge :=
  match merge.positions.lookup ty.name with
  | some position => { merge with types := merge.types.set position ty }
  | none =>
    { merge with
      types := merge.types ++ [ty]
      positions := (ty.name, merge.types.length) :: merge.positions }

def add (merge : Merge) (schema : Schema) : Merge :=
  schema.types.foldl addType { merge with arch := schema.arch.or merge.arch }

def addAll (merge : Merge) (schemas : List Schema) : Merge := schemas.foldl add merge

def finish (merge : Merge) : Schema := ⟨merge.arch, merge.types⟩

def size (merge : Merge) : Nat := merge.types.length

def isEmpty (merge : Merge) : Bool := merge.types.isEmpty

/-! ## Notes -/

def id? (merge : Merge) (name : String) : Option Nat :=
  (merge.positions.lookup name).map (· + 1)

def addTypeNotes (merge : Merge) (ty : TypeDef) : List Note :=
  match merge.id? ty.name with
  | some id => [.definitionReplaced ty.name id]
  | none => []

def archNotes (merge : Merge) (schema : Schema) : List Note :=
  match merge.arch, schema.arch with
  | some earlier, some later => if earlier = later then [] else [.widthChanged earlier later]
  | _, _ => []

def typesNotes : Merge → List TypeDef → List Note
  | _, [] => []
  | merge, ty :: rest => merge.addTypeNotes ty ++ typesNotes (merge.addType ty) rest

def addNotes (merge : Merge) (schema : Schema) : List Note :=
  merge.archNotes schema ++ merge.typesNotes schema.types

end Merge

def Schema.merged (schemas : List Schema) : Schema := (Merge.empty.addAll schemas).finish

end TypeAtlas
