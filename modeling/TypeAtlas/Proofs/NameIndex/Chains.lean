import TypeAtlas.NameIndex

/-!
# Chains of a name index

The invariant of every table that insertions build. The chain of a bucket runs through
exactly the nodes whose names fall into it, in the order in which they came, so that a walk
never leaves the arena and meets no node twice. No two nodes carry one name.
-/

namespace TypeAtlas.NameIndex

/-- A link leads through the nodes at these positions, in order, and ends behind the last. -/
def Linked (nodes : Array Node) : Option Nat → List Nat → Prop
  | link, [] => link = none
  | link, position :: rest =>
      link = some position ∧
        ∃ next, (nodes[position]?).map Node.next = some next ∧ Linked nodes next rest

def keys (table : NameIndex) : List String := table.nodes.toList.map fun node => node.name.text

/-- Positions of the nodes whose names fall into a bucket, in the order of the arena. -/
def residents (table : NameIndex) (bucket : Nat) : List Nat :=
  (List.range table.keys.length).filter fun position =>
    (table.keys[position]?).map table.bucketOf = some bucket

structure Sound (table : NameIndex) : Prop where
  buckets_pos : 0 < table.buckets.size
  linked : ∀ bucket, bucket < table.buckets.size →
    Linked table.nodes (table.buckets[bucket]?).join (table.residents bucket)
  distinct : table.keys.Nodup

theorem Sound.bucketOf_lt {table : NameIndex} (h : table.Sound) (text : String) :
    table.bucketOf text < table.buckets.size :=
  Nat.mod_lt _ h.buckets_pos

/-! ## Walks along links -/

theorem Linked.follow {nodes : Array Node} {link : Option Nat} {positions : List Nat}
    (h : Linked nodes link positions) {bound : Nat} (hbound : positions.length ≤ bound) :
    follow nodes bound link = positions := by
  induction positions generalizing link bound with
  | nil =>
      have hlink : link = none := h
      subst hlink
      cases bound <;> rfl
  | cons position rest ih =>
      obtain ⟨rfl, next, hnext, hrest⟩ := h
      obtain ⟨node, hnode, rfl⟩ := Option.map_eq_some_iff.mp hnext
      cases bound with
      | zero => simp at hbound
      | succ bound =>
          have htail := ih hrest (Nat.le_of_succ_le_succ hbound)
          simp [NameIndex.follow, hnode, htail]

/-- Only the links of the nodes that a walk meets decide where it leads. -/
theorem Linked.congr {nodes others : Array Node} {link : Option Nat} {positions : List Nat}
    (h : Linked nodes link positions)
    (hsame : ∀ position ∈ positions,
      (others[position]?).map Node.next = (nodes[position]?).map Node.next) :
    Linked others link positions := by
  induction positions generalizing link with
  | nil => exact h
  | cons position rest ih =>
      obtain ⟨hlink, next, hnext, hrest⟩ := h
      refine ⟨hlink, next, ?_, ih hrest fun other hmem => hsame other (.tail _ hmem)⟩
      rw [hsame position List.mem_cons_self, hnext]

/-- The last node of a chain can be linked to one more. -/
theorem Linked.concat {nodes others : Array Node} {link : Option Nat} {positions : List Nat}
    {last fresh : Nat} (h : Linked nodes link positions) (hnodup : positions.Nodup)
    (hlast : positions.getLast? = some last)
    (hsame : ∀ position ∈ positions, position ≠ last →
      (others[position]?).map Node.next = (nodes[position]?).map Node.next)
    (hlink : (others[last]?).map Node.next = some (some fresh))
    (hfresh : (others[fresh]?).map Node.next = some none) :
    Linked others link (positions ++ [fresh]) := by
  induction positions generalizing link with
  | nil => simp at hlast
  | cons position rest ih =>
      obtain ⟨rfl, next, hnext, hrest⟩ := h
      obtain ⟨hnew, hnodup⟩ := List.nodup_cons.mp hnodup
      cases rest with
      | nil =>
          have heq : position = last := by simpa using hlast
          subst heq
          exact ⟨rfl, some fresh, hlink, rfl, none, hfresh, rfl⟩
      | cons second more =>
          have hlast' : (second :: more).getLast? = some last := by simpa using hlast
          have hne : position ≠ last := by
            rintro rfl
            exact hnew (List.mem_of_getLast? hlast')
          have hkept := hsame position List.mem_cons_self hne
          refine ⟨rfl, next, by rw [hkept, hnext], ?_⟩
          exact ih hrest hnodup hlast' fun other hmem => hsame other (.tail _ hmem)

/-! ## Residents -/

@[simp] theorem length_keys (table : NameIndex) : table.keys.length = table.nodes.size := by
  simp [keys]

theorem getElem?_keys (table : NameIndex) (position : Nat) :
    table.keys[position]? = (table.nodes[position]?).map fun node => node.name.text := by
  simp [keys]

theorem mem_residents {table : NameIndex} {bucket position : Nat} :
    position ∈ table.residents bucket ↔
      ∃ text, table.keys[position]? = some text ∧ table.bucketOf text = bucket := by
  simp only [residents, List.mem_filter, List.mem_range, decide_eq_true_eq,
    Option.map_eq_some_iff]
  constructor
  · rintro ⟨-, htext⟩
    exact htext
  · rintro ⟨text, htext, hbucket⟩
    exact ⟨(List.getElem?_eq_some_iff.mp htext).1, text, htext, hbucket⟩

theorem lt_of_mem_residents {table : NameIndex} {bucket position : Nat}
    (h : position ∈ table.residents bucket) : position < table.nodes.size := by
  have hmem := (List.mem_filter.mp h).1
  simpa using hmem

/-- A node is resident in one bucket only. -/
theorem eq_of_mem_residents {table : NameIndex} {bucket other position : Nat}
    (hhere : position ∈ table.residents bucket) (hthere : position ∈ table.residents other) :
    bucket = other := by
  obtain ⟨text, htext, hbucket⟩ := mem_residents.mp hhere
  obtain ⟨name, hname, hother⟩ := mem_residents.mp hthere
  rw [htext] at hname
  cases hname
  exact hbucket.symm.trans hother

theorem nodup_residents (table : NameIndex) (bucket : Nat) : (table.residents bucket).Nodup :=
  List.nodup_range.filter _

theorem length_residents_le (table : NameIndex) (bucket : Nat) :
    (table.residents bucket).length ≤ table.nodes.size := by
  have h := List.length_filter_le (fun position =>
    decide ((table.keys[position]?).map table.bucketOf = some bucket))
    (List.range table.keys.length)
  simpa [residents] using h

/-- A bucket's chain is walked to its end within the bound. -/
theorem Sound.chain_eq {table : NameIndex} (h : table.Sound) {bucket : Nat}
    (hbucket : bucket < table.buckets.size) : table.chain bucket = table.residents bucket :=
  (h.linked bucket hbucket).follow (table.length_residents_le bucket)

/-- A name is looked for among all nodes: those outside of its bucket do not carry it. -/
theorem Sound.position?_eq {table : NameIndex} (h : table.Sound) (text : String) :
    table.position? text = (List.range table.nodes.size).find? (table.carries text) := by
  rw [position?, h.chain_eq (h.bucketOf_lt text), residents, List.find?_filter, length_keys]
  congr 1
  funext position
  rw [getElem?_keys]
  cases hnode : table.nodes[position]? with
  | none => simp [carries, hnode]
  | some node =>
      by_cases hname : node.name.text = text
      · simp [carries, hnode, hname]
      · simp [carries, hnode, hname]

end TypeAtlas.NameIndex
