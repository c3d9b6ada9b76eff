import TypeAtlas.NameIndex

/-!
# How the names of an index are held

An index is walked by the texts of its names alone. So names that are held apart from their source
are found as those that are not, and an index that is built from them is the same index otherwise.
-/

namespace TypeAtlas

def Name.hold (owned : Bool) (name : Name) : Name := { name with owned := owned }

@[simp] theorem Name.text_hold (owned : Bool) (name : Name) : (name.hold owned).text = name.text :=
  rfl

/-- A value may be changed in an array or, in the same way, in its image. -/
theorem map_modify (after : α → β) (change : α → α) (later : β → β)
    (h : ∀ value, after (change value) = later (after value)) (values : Array α)
    (position : Nat) :
    (values.modify position change).map after = (values.map after).modify position later := by
  apply Array.ext_getElem?
  intro other
  rw [Array.getElem?_map, Array.getElem?_modify, Array.getElem?_modify, Array.getElem?_map]
  split
  · simp [Option.map_map, Function.comp_def, h]
  · rfl

namespace NameIndex

def Node.hold (owned : Bool) (node : Node) : Node := { node with name := node.name.hold owned }

def hold (owned : Bool) (table : NameIndex) : NameIndex :=
  { table with nodes := table.nodes.map (Node.hold owned) }

theorem hold_hold (table : NameIndex) (first owned : Bool) :
    (table.hold first).hold owned = table.hold owned := by
  simp [hold, Function.comp_def, Node.hold, Name.hold]

/-! ## Walks -/

theorem follow_map {nodes : Array Node} {change : Node → Node}
    (h : ∀ node, (change node).next = node.next) (bound : Nat) (link : Option Nat) :
    follow (nodes.map change) bound link = follow nodes bound link := by
  induction bound generalizing link with
  | zero => rfl
  | succ bound ih =>
    cases link with
    | none => rfl
    | some position =>
      cases hnode : nodes[position]? with
      | none => simp [follow, hnode]
      | some node => simp [follow, hnode, h, ih]

variable (owned : Bool) (table : NameIndex)

@[simp] theorem chain_hold (bucket : Nat) : (table.hold owned).chain bucket = table.chain bucket := by
  have hnext : ∀ node : Node, (node.hold owned).next = node.next := fun _ => rfl
  simp [chain, hold, follow_map hnext]

theorem carries_hold (text : String) (position : Nat) :
    (table.hold owned).carries text position = table.carries text position := by
  cases hnode : table.nodes[position]? <;> simp [carries, hold, Node.hold, hnode]

@[simp] theorem position?_hold (text : String) :
    (table.hold owned).position? text = table.position? text := by
  have hcarries : (table.hold owned).carries text = table.carries text :=
    funext (carries_hold owned table text)
  have hbucket : (table.hold owned).bucketOf text = table.bucketOf text := rfl
  rw [position?, hbucket, chain_hold, hcarries, position?]

@[simp] theorem get?_hold (text : String) : (table.hold owned).get? text = table.get? text := by
  simp only [get?, position?_hold]
  cases table.position? text with
  | none => rfl
  | some position => cases hnode : table.nodes[position]? <;> simp [hold, Node.hold, hnode]

/-! ## Building -/

@[simp] theorem hold_withCapacity (capacity : Nat) :
    (withCapacity capacity).hold owned = withCapacity capacity := by
  simp [withCapacity, hold]

theorem hold_append (bucket : Nat) (name : Name) (id : Nat) :
    (table.append bucket name id).hold owned =
      (table.hold owned).append bucket (name.hold owned) id := by
  have hsize : (table.hold owned).nodes.size = table.nodes.size := by simp [hold]
  rw [append, append, chain_hold, hsize]
  cases (table.chain bucket).getLast? with
  | none => simp [hold, Node.hold]
  | some last =>
      have hlink := map_modify (Node.hold owned)
        (fun node => { node with next := some table.nodes.size })
        (fun node => { node with next := some table.nodes.size }) (fun _ => rfl) table.nodes last
      simp only [hold, Array.map_push, hlink]
      rfl

/-- Names may be held as asked before they are put into an index, or all at once behind. -/
theorem hold_insert (name : Name) (id : Nat) :
    (table.insert name id).hold owned = (table.hold owned).insert (name.hold owned) id := by
  rw [insert, insert, Name.text_hold, position?_hold]
  cases table.position? name.text with
  | none => exact hold_append owned table _ name id
  | some position =>
      have hnumber := map_modify (Node.hold owned) (fun node => { node with id := id })
        (fun node => { node with id := id }) (fun _ => rfl) table.nodes position
      simp only [hold, hnumber]

end NameIndex

end TypeAtlas
