import TypeAtlas.Heap.Memory
import TypeAtlas.Note
import TypeAtlas.Value.View

/-!
# Tagged values

A value on the heap has a header of 32 bytes in front of its payload, which names the
registry and the type it was made by. A payload address is all that is needed to find the
type again, and only the registry whose tag the header carries answers for it.
-/

namespace TypeAtlas

structure TagHeader where
  magic : UInt32
  pointerFlag : UInt8
  registry : UInt64
  typeId : UInt64
  /-- Bytes of the payload. -/
  size : UInt64
  deriving DecidableEq, Repr

namespace TagHeader

def liveMagic : UInt32 := 0x75757575

def length : Nat := 32

def isLive (header : TagHeader) : Bool := header.magic == liveMagic

def isPointer (header : TagHeader) : Bool := header.pointerFlag != 0

/-- Magic, flag, three bytes of padding, registry, type and size. -/
def toBytes (header : TagHeader) : Bytes :=
  Bytes.ofWord hostOrder 4 header.magic.toNat ++ [header.pointerFlag, 0, 0, 0] ++
    Bytes.ofWord hostOrder 8 header.registry.toNat ++
    Bytes.ofWord hostOrder 8 header.typeId.toNat ++
    Bytes.ofWord hostOrder 8 header.size.toNat

def ofBytes (bytes : Bytes) : TagHeader where
  magic := UInt32.ofNat (Bytes.toWord hostOrder (bytes.slice 0 4))
  pointerFlag := UInt8.ofNat (Bytes.toWord hostOrder (bytes.slice 4 1))
  registry := UInt64.ofNat (Bytes.toWord hostOrder (bytes.slice 8 8))
  typeId := UInt64.ofNat (Bytes.toWord hostOrder (bytes.slice 16 8))
  size := UInt64.ofNat (Bytes.toWord hostOrder (bytes.slice 24 8))

@[simp] theorem length_toBytes (header : TagHeader) : header.toBytes.length = length := by
  simp [toBytes, length]

end TagHeader

/-- A record together with the registry that it stands in. Equal records of two registries
are told apart by it; a record in no registry has the home 0, which no registry has. -/
structure HomedType where
  home : UInt64
  /-- The slot it stands in. -/
  slot : TypeId
  record : TypeRecord
  deriving DecidableEq, Repr

namespace Registry

def ownType? (registry : Registry) (id : TypeId) : Option HomedType :=
  (registry.typeById? id).map fun record => ⟨registry.tag, id, record⟩

def ownTypeNamed? (registry : Registry) (name : String) : Option HomedType := do
  let id ← registry.names.get? name
  registry.ownType? ⟨id⟩

/-- Is this the registry's record, and not merely an equal one? -/
def owns (registry : Registry) (type : HomedType) : Bool :=
  type.home == registry.tag && type.slot == type.record.id &&
    (registry.typeById? type.record.id).isSome

/-! ## Headers -/

def acceptHeader? (registry : Registry) (header : TagHeader) : Option TagHeader :=
  if header.isLive && header.registry == registry.tag then some header else none

/-- The header in front of a payload; the address 0 has none. -/
def header? (registry : Registry) (memory : Memory) (payload : Nat) : Option TagHeader :=
  if payload = 0 then none
  else registry.acceptHeader?
    (.ofBytes (memory.read (payload - TagHeader.length) TagHeader.length))

def typeOfHeader? (registry : Registry) (header : TagHeader) : Option TypeRecord :=
  registry.typeById? ⟨header.typeId.toNat⟩

def typeOf? (registry : Registry) (memory : Memory) (payload : Nat) : Option TypeRecord := do
  let header ← registry.header? memory payload
  registry.typeOfHeader? header

def fieldOffsetOf? (registry : Registry) (memory : Memory) (payload : Nat) (name : String) :
    Option Nat := do
  let type ← registry.typeOf? memory payload
  fieldOffset? type name

/-! ## Allocating and releasing -/

/-- Make a zeroed value of a type and answer the address of its payload. The allocator is
asked only for a record of this registry whose size leaves room for the header. -/
def allocate (registry : Registry) (heap : Heap) (type : HomedType) (allocator : Allocator) :
    Option Nat × Heap :=
  let total := TagHeader.length + type.record.size.toNat
  if registry.owns type && decide (total < UInt64.size) then
    match heap.request allocator total with
    | (none, heap) => (none, heap)
    | (some base, heap) =>
      let header : TagHeader :=
        ⟨TagHeader.liveMagic, 0, registry.tag, UInt64.ofNat type.record.id.index, type.record.size⟩
      let payload := base + TagHeader.length
      (some payload,
        { heap with
          memory := (heap.memory.write base header.toBytes).fill payload
            type.record.size.toNat 0 })
  else (none, heap)

def allocateNotes (registry : Registry) (type : HomedType) : List Note :=
  if registry.owns type then [] else [.foreignRecord type.record.name.text]

end Registry

namespace Heap

/-- Mark the header dead and give the block back. -/
def release (heap : Heap) (allocator : Allocator) (payload : Nat) : Heap :=
  let base := payload - TagHeader.length
  giveBack { heap with memory := heap.memory.fill base 4 0 } allocator base

end Heap

/-- A value on the heap: who made it, as what, where it lies, and whose block it is in. -/
structure TaggedValue where
  registry : Registry
  type : TypeRecord
  payload : Nat
  allocator : Allocator

namespace TaggedValue

def make (registry : Registry) (heap : Heap) (type : HomedType) (allocator : Allocator) :
    Option TaggedValue × Heap :=
  match registry.allocate heap type allocator with
  | (none, heap) => (none, heap)
  | (some payload, heap) => (some ⟨registry, type.record, payload, allocator⟩, heap)

/-- Allocate a value to be owned. Its type is looked up once more, so that what is owned is
laid out by a record of the registry. -/
def makeOwned (registry : Registry) (heap : Heap) (type : HomedType) (allocator : Allocator) :
    Option TaggedValue × Heap :=
  match registry.allocate heap type allocator with
  | (none, heap) => (none, heap)
  | (some payload, heap) =>
    ((registry.typeById? type.record.id).map fun record => ⟨registry, record, payload, allocator⟩,
      heap)

def at? (registry : Registry) (heap : Heap) (payload : Nat) (allocator : Allocator) :
    Option TaggedValue :=
  (registry.typeOf? heap.memory payload).map fun record => ⟨registry, record, payload, allocator⟩

def size (value : TaggedValue) : Nat := value.type.size.toNat

def bytes (value : TaggedValue) (heap : Heap) : Bytes := heap.memory.read value.payload value.size

/-- Put other bytes in the place of the payload's; as many as it has are taken. -/
def store (value : TaggedValue) (heap : Heap) (bytes : Bytes) : Heap :=
  { heap with memory := heap.memory.write value.payload (bytes.take value.size) }

def view? (value : TaggedValue) (heap : Heap) (name : String) : Option FieldView :=
  value.registry.view? (value.bytes heap) name value.type

def release (value : TaggedValue) (heap : Heap) : Heap :=
  heap.release value.allocator value.payload

end TaggedValue

end TypeAtlas
