import TypeAtlas.Heap.Workspace

/-!
# Runs of a workspace

What can happen to the values of a workspace, one thing after another. A run says which
workspaces can be reached; the answers of the single operations are left out. Memory outside
of the values belongs to allocators and to the rest of the program, which may store in it at
any time.
-/

namespace TypeAtlas

inductive Action where
  | make (place : Nat) (registry : Registry) (type : HomedType) (allocator : Allocator)
  | makeOwned (place : Nat) (registry : Registry) (type : HomedType) (allocator : Allocator)
  | free (place : Nat)
  | giveUp (place : Nat)
  | adopt (place : Nat) (registry : Registry)
  | poke (place offset : Nat) (bytes : Bytes)
  | edit (place : Nat) (name : String) (edits : List FieldEdit)
  /-- Something else stores bytes. -/
  | elsewhere (address : Nat) (bytes : Bytes)

namespace Workspace

/-- Store bytes in memory that is in no outstanding block; nothing is stored elsewhere. -/
def scribble (workspace : Workspace) (address : Nat) (bytes : Bytes) : Workspace :=
  if workspace.heap.outstanding.all fun block => block.AwayFrom address bytes.length then
    { workspace with
      heap := { workspace.heap with memory := workspace.heap.memory.write address bytes } }
  else workspace

def act (workspace : Workspace) : Action → Workspace
  | .make place registry type allocator => workspace.make place registry type allocator
  | .makeOwned place registry type allocator =>
    workspace.makeOwned place registry type allocator false
  | .free place => workspace.free place
  | .giveUp place => (workspace.giveUp place).2
  | .adopt place registry => (workspace.adopt place registry).2
  | .poke place offset bytes => (workspace.poke place offset bytes).2
  | .edit place name edits => (workspace.edit place name edits).2
  | .elsewhere address bytes => workspace.scribble address bytes

def run (workspace : Workspace) (actions : List Action) : Workspace :=
  actions.foldl act workspace

end Workspace

end TypeAtlas
