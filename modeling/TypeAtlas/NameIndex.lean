import TypeAtlas.Bytes
import TypeAtlas.Name

/-!
# Name index

A hash table from names to small numbers whose bucket count is chosen once. A bucket
holds the position of the first node of a chain; nodes live in one arena, in the order
in which their names first came, and link to each other by position.

Walks carry a bound, the size of the arena, so that they are total on every table.
-/

namespace TypeAtlas

/-- 32-bit FNV-1a: exclusive-or each byte in, then multiply by the prime. -/
def fnv1a (text : String) : UInt32 :=
  (Bytes.ofString text).foldl (fun hash byte => (hash ^^^ byte.toUInt32) * 16777619) 2166136261

structure NameIndex.Node where
  name : Name
  id : Nat
  next : Option Nat
  deriving DecidableEq, Repr, Inhabited

structure NameIndex where
  buckets : Array (Option Nat)
  nodes : Array NameIndex.Node
  deriving DecidableEq, Repr, Inhabited

namespace NameIndex

/-- An empty table of `capacity` buckets, and of one bucket if that is none. -/
def withCapacity (capacity : Nat) : NameIndex where
  buckets := Array.replicate (max capacity 1) none
  nodes := #[]

def bucketOf (table : NameIndex) (text : String) : Nat :=
  (fnv1a text).toNat % table.buckets.size

/-! ## Walking a chain -/

/-- Node positions met from a link on, in at most `bound` steps. -/
def follow (nodes : Array Node) : Nat → Option Nat → List Nat
  | 0, _ => []
  | _ + 1, none => []
  | bound + 1, some position =>
    match nodes[position]? with
    | none => []
    | some node => position :: follow nodes bound node.next

def chain (table : NameIndex) (bucket : Nat) : List Nat :=
  follow table.nodes table.nodes.size (table.buckets[bucket]?).join

def carries (table : NameIndex) (text : String) (position : Nat) : Bool :=
  match table.nodes[position]? with
  | none => false
  | some node => node.name.text == text

def position? (table : NameIndex) (text : String) : Option Nat :=
  (table.chain (table.bucketOf text)).find? (table.carries text)

/-! ## Operations -/

def get? (table : NameIndex) (text : String) : Option Nat := do
  let position ← table.position? text
  let node ← table.nodes[position]?
  return node.id

/-- Link a new node behind the last one of a bucket's chain. -/
def append (table : NameIndex) (bucket : Nat) (name : Name) (id : Nat) : NameIndex :=
  let fresh := table.nodes.size
  match (table.chain bucket).getLast? with
  | none =>
    { buckets := table.buckets.setIfInBounds bucket (some fresh)
      nodes := table.nodes.push ⟨name, id, none⟩ }
  | some last =>
    { buckets := table.buckets
      nodes := (table.nodes.modify last fun node => { node with next := some fresh }).push
        ⟨name, id, none⟩ }

/-- Store a number for a name; an equal name keeps its node and takes the new number. -/
def insert (table : NameIndex) (name : Name) (id : Nat) : NameIndex :=
  match table.position? name.text with
  | some position =>
    { table with nodes := table.nodes.modify position fun node => { node with id := id } }
  | none => table.append (table.bucketOf name.text) name id

def size (table : NameIndex) : Nat := table.nodes.size

def isEmpty (table : NameIndex) : Bool := table.nodes.isEmpty

def capacity (table : NameIndex) : Nat := table.buckets.size

def longestChain (table : NameIndex) : Nat :=
  (List.range table.capacity).foldl (fun longest bucket =>
    max longest (table.chain bucket).length) 0

/-- Names with their numbers, in the order in which the names first came. -/
def entries (table : NameIndex) : List (String × Nat) :=
  table.nodes.toList.map fun node => (node.name.text, node.id)

/-- Hold every name apart from its source; links and numbers stay. -/
def detach (table : NameIndex) : NameIndex :=
  { table with nodes := table.nodes.map fun node => { node with name := node.name.detach } }

@[simp] theorem capacity_withCapacity (capacity : Nat) :
    (withCapacity capacity).capacity = max capacity 1 := by
  simp [withCapacity, NameIndex.capacity]

/-! ## Detached names -/

@[simp] theorem entries_detach (table : NameIndex) : table.detach.entries = table.entries := by
  simp [entries, detach]

@[simp] theorem size_detach (table : NameIndex) : table.detach.size = table.size := by
  simp [size, detach]

end NameIndex

end TypeAtlas
