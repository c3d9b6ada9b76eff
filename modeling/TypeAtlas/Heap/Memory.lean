import TypeAtlas.Bytes

/-!
# Memory

A byte at every address, and blocks of it that allocators hand out and take back. The
heap keeps what allocators were asked and what they answered; which blocks are
outstanding is read off that record.
-/

namespace TypeAtlas

structure Memory where
  byteAt : Nat → UInt8

namespace Memory

def blank : Memory := ⟨fun _ => 0⟩

def read (memory : Memory) (address count : Nat) : Bytes :=
  (List.range count).map fun i => memory.byteAt (address + i)

def write (memory : Memory) (address : Nat) (bytes : Bytes) : Memory :=
  let stored := bytes.toArray
  let stop := address + stored.size
  ⟨fun a => if address ≤ a ∧ a < stop then stored[a - address]?.getD 0 else memory.byteAt a⟩

def fill (memory : Memory) (address count : Nat) (byte : UInt8) : Memory :=
  ⟨fun a => if address ≤ a ∧ a < address + count then byte else memory.byteAt a⟩

@[simp] theorem length_read (memory : Memory) (address count : Nat) :
    (memory.read address count).length = count := by
  simp [read]

theorem byteAt_write_of_outside {memory : Memory} {address a : Nat} {bytes : Bytes}
    (h : a < address ∨ address + bytes.length ≤ a) :
    (memory.write address bytes).byteAt a = memory.byteAt a := by
  simp only [write, List.size_toArray]
  rw [if_neg (by omega)]

theorem byteAt_fill_of_outside {memory : Memory} {address a count : Nat} {byte : UInt8}
    (h : a < address ∨ address + count ≤ a) :
    (memory.fill address count byte).byteAt a = memory.byteAt a := by
  simp only [fill]
  rw [if_neg (by omega)]

theorem read_congr {memory other : Memory} {address count : Nat}
    (h : ∀ a, address ≤ a → a < address + count → memory.byteAt a = other.byteAt a) :
    memory.read address count = other.read address count := by
  simp only [read]
  apply List.map_congr_left
  intro i hi
  exact h (address + i) (by omega) (by have := List.mem_range.mp hi; omega)

/-- What was written is read back. -/
theorem read_write (memory : Memory) (address : Nat) (bytes : Bytes) :
    (memory.write address bytes).read address bytes.length = bytes := by
  apply List.ext_getElem?
  intro i
  simp only [read, write, List.size_toArray, List.getElem?_map]
  by_cases h : i < bytes.length
  · rw [List.getElem?_range h]
    simp [h]
  · simp [h]

theorem read_fill (memory : Memory) (address count : Nat) (byte : UInt8) :
    (memory.fill address count byte).read address count = List.replicate count byte := by
  apply List.ext_getElem?
  intro i
  simp only [read, fill, List.getElem?_map]
  by_cases h : i < count
  · rw [List.getElem?_range h, List.getElem?_replicate]
    simp [h]
  · simp [h]

end Memory

structure Block where
  /-- The allocator it belongs to. -/
  allocator : Nat
  base : Nat
  size : Nat
  deriving DecidableEq, Repr

namespace Block

def contains (block : Block) (address : Nat) : Prop :=
  block.base ≤ address ∧ address < block.base + block.size

def AwayFrom (block : Block) (address count : Nat) : Prop :=
  address + count ≤ block.base ∨ block.base + block.size ≤ address

instance (block : Block) (address count : Nat) : Decidable (block.AwayFrom address count) :=
  inferInstanceAs (Decidable (_ ∨ _))

end Block

inductive AllocatorCall where
  | granted (block : Block)
  | refused (allocator size : Nat)
  | returned (allocator base : Nat)
  deriving DecidableEq, Repr

structure Heap where
  memory : Memory
  /-- Calls of all allocators, the latest first. -/
  calls : List AllocatorCall

namespace Heap

def blank : Heap := ⟨.blank, []⟩

def outstandingAfter : List AllocatorCall → List Block
  | [] => []
  | .granted block :: earlier => block :: outstandingAfter earlier
  | .refused _ _ :: earlier => outstandingAfter earlier
  | .returned allocator base :: earlier =>
    (outstandingAfter earlier).filter fun block =>
      !(block.allocator == allocator && block.base == base)

def outstanding (heap : Heap) : List Block := outstandingAfter heap.calls

/-- Every block ever handed out, the latest first. -/
def granted (heap : Heap) : List Block :=
  heap.calls.filterMap fun
    | .granted block => some block
    | _ => none

def frontier (heap : Heap) : Nat :=
  heap.granted.foldl (fun stop block => max stop (block.base + block.size)) 4096

end Heap

structure Allocator where
  /-- Tells its blocks from those of other allocators. -/
  id : Nat
  /-- Where a block of some size is placed; none when the request is refused. -/
  place : Heap → Nat → Option Nat
  /-- Memory stays as it was after a block is given back. -/
  keeps : Bool
  /-- What the memory of a block is left with otherwise. -/
  litter : UInt8

namespace Heap

def request (heap : Heap) (allocator : Allocator) (size : Nat) : Option Nat × Heap :=
  match allocator.place heap size with
  | none => (none, { heap with calls := .refused allocator.id size :: heap.calls })
  | some base =>
    (some base, { heap with calls := .granted ⟨allocator.id, base, size⟩ :: heap.calls })

def giveBack (heap : Heap) (allocator : Allocator) (base : Nat) : Heap where
  memory :=
    if allocator.keeps then heap.memory
    else match heap.outstanding.find? fun block =>
        block.allocator == allocator.id && block.base == base with
      | some block => heap.memory.fill block.base block.size allocator.litter
      | none => heap.memory
  calls := .returned allocator.id base :: heap.calls

end Heap

namespace Allocator

/-- The first multiple of sixteen behind everything handed out. -/
def nextBase (heap : Heap) : Nat := (heap.frontier + 15) / 16 * 16

/-- Place blocks one behind the other, none larger than `limit`. -/
def placeUpTo (limit : Nat) (heap : Heap) (size : Nat) : Option Nat :=
  if size ≤ limit then some (nextBase heap) else none

/-- The largest block of the general heap: the address space has no room for more. -/
def heapLimit : Nat := 0x800000000000

def system : Allocator := ⟨0, placeUpTo heapLimit, false, 0xDD⟩

/-- The general heap through callbacks that count. -/
def callbacks : Allocator := ⟨1, placeUpTo heapLimit, false, 0xDD⟩

def refusing : Allocator := ⟨2, fun _ _ => none, false, 0xDD⟩

/-- Callbacks left out, so that the general heap answers. -/
def fallback : Allocator := ⟨3, placeUpTo heapLimit, false, 0xDD⟩

/-- An arena of small blocks, whose memory is never used again. -/
def arena : Allocator := ⟨4, placeUpTo 0x1000000, true, 0⟩

def counts (id : Nat) : Bool := id == callbacks.id || id == arena.id

/-- Does the allocator count a request before it asks the heap below, and so count the
requests that are refused as well? -/
def countsRefused (id : Nat) : Bool := id == callbacks.id

end Allocator

namespace AllocatorCall

def countedSize? : AllocatorCall → Option Nat
  | granted block => if Allocator.counts block.allocator then some block.size else none
  | refused allocator size => if Allocator.countsRefused allocator then some size else none
  | returned _ _ => none

def isCountedRefusal : AllocatorCall → Bool
  | refused allocator _ => Allocator.countsRefused allocator
  | granted _ | returned _ _ => false

end AllocatorCall

end TypeAtlas
