import TypeAtlas.Heap.Tagged
import TypeAtlas.Value.Edit

/-!
# Workspace

Numbered places, each of which holds at most one tagged value of a common heap: by its
payload address alone, or owned. Making a value in a place first frees what the place
holds. On an allocator that keeps its memory the address stays behind after a value is
freed, so that it can still be asked about.
-/

namespace TypeAtlas

inductive Holding where
  | empty
  /-- A value that has to be freed by hand. -/
  | raw (value : TaggedValue)
  /-- A value that is freed with its owner; `fresh` until it is handed over for the first
  time, for values made on the general heap. -/
  | owned (value : TaggedValue) (fresh : Bool)
  /-- The address of a value that was freed. -/
  | stale (payload : Nat)

namespace Holding

def value? : Holding → Option TaggedValue
  | empty | stale _ => none
  | raw value | owned value _ => some value

def payload? : Holding → Option Nat
  | empty => none
  | stale payload => some payload
  | raw value | owned value _ => some value.payload

def bytes? (holding : Holding) (heap : Heap) : Option Bytes :=
  holding.value?.map fun value => value.bytes heap

end Holding

structure Workspace where
  heap : Heap
  places : Nat → Holding

namespace Workspace

def blank : Workspace := ⟨.blank, fun _ => .empty⟩

def put (workspace : Workspace) (place : Nat) (holding : Holding) : Workspace :=
  { workspace with places := fun p => if p = place then holding else workspace.places p }

/-! ## Making and freeing -/

/-- What is left of a value once it is freed. -/
def remains (value : TaggedValue) : Holding :=
  if value.allocator.keeps then .stale value.payload else .empty

def free (workspace : Workspace) (place : Nat) : Workspace :=
  match (workspace.places place).value? with
  | none => workspace
  | some value =>
    { workspace with heap := value.release workspace.heap }.put place (remains value)

/-- Free what a place holds and forget its address. -/
def clear (workspace : Workspace) (place : Nat) : Workspace :=
  (workspace.free place).put place .empty

def make (workspace : Workspace) (place : Nat) (registry : Registry) (type : HomedType)
    (allocator : Allocator) : Workspace :=
  let cleared := workspace.clear place
  match TaggedValue.make registry cleared.heap type allocator with
  | (none, heap) => { cleared with heap := heap }
  | (some value, heap) => { cleared with heap := heap }.put place (.raw value)

def makeOwned (workspace : Workspace) (place : Nat) (registry : Registry) (type : HomedType)
    (allocator : Allocator) (fresh : Bool) : Workspace :=
  let cleared := workspace.clear place
  match TaggedValue.makeOwned registry cleared.heap type allocator with
  | (none, heap) => { cleared with heap := heap }
  | (some value, heap) => { cleared with heap := heap }.put place (.owned value fresh)

/-! ## Ownership -/

/-- Give up the ownership of a value and keep its address; refused if none is owned. -/
def giveUp (workspace : Workspace) (place : Nat) : Bool × Workspace :=
  match workspace.places place with
  | .owned value _ => (true, workspace.put place (.raw value))
  | _ => (false, workspace)

/-- Own a value that is held by its address; refused if there is none, or if its header is
not one of the registry's. -/
def adopt (workspace : Workspace) (place : Nat) (registry : Registry) : Bool × Workspace :=
  match workspace.places place with
  | .raw held =>
    match TaggedValue.at? registry workspace.heap held.payload held.allocator with
    | some value => (true, workspace.put place (.owned value false))
    | none => (false, workspace)
  | _ => (false, workspace)

/-! ## Bytes -/

/-- Store bytes at an offset of the value in a place; refused when they do not fit. -/
def poke (workspace : Workspace) (place offset : Nat) (bytes : Bytes) : Bool × Workspace :=
  match (workspace.places place).value? with
  | none => (false, workspace)
  | some value =>
    if offset + bytes.length ≤ value.size then
      (true, { workspace with
        heap := { workspace.heap with
          memory := workspace.heap.memory.write (value.payload + offset) bytes } })
    else (false, workspace)

def edit (workspace : Workspace) (place : Nat) (name : String) (edits : List FieldEdit) :
    Option (List EditOutcome × FieldView) × Workspace :=
  match (workspace.places place).value? with
  | none => (none, workspace)
  | some value =>
    match value.view? workspace.heap name with
    | none => (none, workspace)
    | some view =>
      let (outcomes, view) := view.editAll edits
      (some (outcomes, view), { workspace with heap := value.store workspace.heap view.value })

/-- Store the address held in another place, or 0, in a field, and follow it. -/
def link (workspace : Workspace) (place target : Nat) (name : String) (registry : Registry) :
    Option Bool × Option TypeRecord × Workspace :=
  let address := (workspace.places target).payload?.getD 0
  match workspace.edit place name [.write .u64 address] with
  | (some ([.wrote stored (some found)], _), workspace) =>
    (some stored, registry.typeOf? workspace.heap.memory found.toNat, workspace)
  | (some ([.wrote stored none], _), workspace) => (some stored, none, workspace)
  | (_, workspace) => (none, none, workspace)

/-! ## Questions -/

def typeOf? (workspace : Workspace) (place : Nat) (registry : Registry) : Option TypeRecord := do
  let payload ← (workspace.places place).payload?
  registry.typeOf? workspace.heap.memory payload

def header? (workspace : Workspace) (place : Nat) (registry : Registry) : Option TagHeader := do
  let payload ← (workspace.places place).payload?
  registry.header? workspace.heap.memory payload

/-- The header bytes in front of the value in a place, zeros if there is none. -/
def headerBytes (workspace : Workspace) (place : Nat) : Bytes :=
  match (workspace.places place).payload? with
  | some payload =>
    workspace.heap.memory.read (payload - TagHeader.length) TagHeader.length
  | none => List.replicate TagHeader.length 0

/-- The header that a registry makes out in a copy of a place's header with some bytes
overwritten. -/
def forge (workspace : Workspace) (place : Nat) (registry : Registry)
    (patches : List (Nat × Bytes)) : Option TagHeader :=
  let copied := workspace.headerBytes place ++ List.replicate TagHeader.length 0
  let patched := patches.foldl (fun bytes (offset, patch) => bytes.overwrite offset patch) copied
  registry.acceptHeader? (.ofBytes (patched.take TagHeader.length))

/-! ## Counts -/

def countedSizes (workspace : Workspace) : List Nat :=
  workspace.heap.calls.filterMap AllocatorCall.countedSize?

def requestCount (workspace : Workspace) : Nat := workspace.countedSizes.length

/-- Bytes that the counted requests asked for. The count is a word and goes round. -/
def requestedBytes (workspace : Workspace) : Nat :=
  workspace.countedSizes.foldr (· + ·) 0 % UInt64.size

/-- Counted requests that no return has made up for: the outstanding blocks of the
allocators that count, and the refused requests, for which nothing can be returned. -/
def liveCount (workspace : Workspace) : Nat :=
  (workspace.heap.outstanding.filter fun block => Allocator.counts block.allocator).length +
    (workspace.heap.calls.filter AllocatorCall.isCountedRefusal).length

end Workspace

end TypeAtlas
