import TypeAtlas.NameIndex

/-!
# Walks along chains

The operations of a name index as they go, one node after the other. A walk goes astray where a
link leads out of the arena, and also where it would meet more nodes than there are. What an
operation comes to is told together with the number of nodes it has met.
-/

namespace TypeAtlas.NameIndex

/-- A link leads to the node that it names, and to every node that the link of this one leads to. -/
inductive Leads (nodes : Array Node) : Option Nat → Nat → Prop where
  | here {position : Nat} (hin : position < nodes.size) : Leads nodes (some position) position
  | later {first position : Nat} {node : Node} (hnode : nodes[first]? = some node)
      (hlater : Leads nodes node.next position) : Leads nodes (some first) position

inductive Astray where
  /-- There is no node or bucket at this position. -/
  | outside (position : Nat)
  /-- The walk has met as many nodes as it may, and there are more. -/
  | endless
  deriving DecidableEq, Repr

/-- The positions of the nodes met, in order, and that of the node sought, if it is one of them. -/
structure Walk where
  met : List Nat
  found : Option Nat
  deriving DecidableEq, Repr

/-- Walk from a link on, over at most `bound` nodes, until a node is sought or the chain ends. -/
def walk (nodes : Array Node) (sought : Node → Bool) : Nat → Option Nat → Except Astray Walk
  | _, none => .ok ⟨[], none⟩
  | 0, some _ => .error .endless
  | bound + 1, some position =>
    match nodes[position]? with
    | none => .error (.outside position)
    | some node =>
      if sought node then .ok ⟨[position], some position⟩
      else (walk nodes sought bound node.next).map fun later => ⟨position :: later.met, later.found⟩

def headOf (table : NameIndex) (bucket : Nat) : Except Astray (Option Nat) :=
  match table.buckets[bucket]? with
  | none => .error (.outside bucket)
  | some link => .ok link

def seek (table : NameIndex) (text : String) : Except Astray Walk := do
  let head ← table.headOf (table.bucketOf text)
  walk table.nodes (fun node => node.name.text == text) table.nodes.size head

def getByWalk (table : NameIndex) (text : String) : Except Astray (Option Nat × Nat) := do
  let walk ← table.seek text
  return (walk.found.bind fun position => (table.nodes[position]?).map Node.id, walk.met.length)

/-- The node found takes the number. If there is none, a new node goes behind the last one met, or
into the bucket where that is empty. -/
def insertByWalk (table : NameIndex) (name : Name) (id : Nat) :
    Except Astray (NameIndex × Nat) := do
  let walk ← table.seek name.text
  let fresh := table.nodes.size
  let next : NameIndex :=
    match walk.found, walk.met.getLast? with
    | some position, _ =>
      { table with nodes := table.nodes.modify position fun node => { node with id := id } }
    | none, some last =>
      { table with
        nodes := (table.nodes.modify last fun node => { node with next := some fresh }).push
          ⟨name, id, none⟩ }
    | none, none =>
      { buckets := table.buckets.setIfInBounds (table.bucketOf name.text) (some fresh)
        nodes := table.nodes.push ⟨name, id, none⟩ }
  return (next, walk.met.length)

def lengthsByWalk (table : NameIndex) : Except Astray (List Nat) :=
  table.buckets.toList.mapM fun head =>
    (walk table.nodes (fun _ => false) table.nodes.size head).map fun walk => walk.met.length

end TypeAtlas.NameIndex
