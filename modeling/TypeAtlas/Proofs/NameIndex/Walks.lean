import TypeAtlas.NameIndex.Walk
import TypeAtlas.Proofs.NameIndex.FiniteMap
import TypeAtlas.Proofs.Outcome

/-!
# Walks over a name index

In every index that insertions build, links lead on in the arena, and from a bucket they lead to
exactly the nodes whose names fall into it. So each operation walks to an end over no more nodes
than there are. The longest chain is as long as the largest number of distinct names that share
one bucket.
-/

namespace TypeAtlas.NameIndex

/-! ## Links -/

section Links

variable {nodes : Array Node} {link : Option Nat} {positions : List Nat}

theorem Linked.leads_iff (h : Linked nodes link positions) {position : Nat} :
    Leads nodes link position ↔ position ∈ positions := by
  induction positions generalizing link with
  | nil =>
      have hlink : link = none := h
      subst hlink
      constructor
      · intro hleads
        cases hleads
      · intro hmem
        cases hmem
  | cons first rest ih =>
      obtain ⟨rfl, next, hnext, hrest⟩ := h
      obtain ⟨node, hnode, rfl⟩ := Option.map_eq_some_iff.mp hnext
      constructor
      · intro hleads
        cases hleads with
        | here _ => exact List.mem_cons_self
        | later hother hlater =>
            cases Option.some.inj (hnode.symm.trans hother)
            exact List.mem_cons_of_mem _ ((ih hrest).mp hlater)
      · intro hmem
        rcases List.mem_cons.mp hmem with rfl | hlater
        · exact .here (Array.getElem?_eq_some_iff.mp hnode).1
        · exact .later hnode ((ih hrest).mpr hlater)

/-- A link on a sorted chain leads on, to a node of the same chain. -/
theorem Linked.next_of_mem (h : Linked nodes link positions) (hsorted : positions.Pairwise (· < ·))
    {position next : Nat} {node : Node} (hmem : position ∈ positions)
    (hnode : nodes[position]? = some node) (hnext : node.next = some next) :
    position < next ∧ next ∈ positions := by
  induction positions generalizing link with
  | nil => cases hmem
  | cons first rest ih =>
      obtain ⟨rfl, link, hlink, hrest⟩ := h
      obtain ⟨hbefore, hsorted⟩ := List.pairwise_cons.mp hsorted
      rcases List.mem_cons.mp hmem with rfl | hlater
      · rw [hnode, Option.map_some, Option.some_inj, hnext] at hlink
        subst hlink
        cases rest with
        | nil => cases hrest
        | cons second more =>
            cases hrest.1
            exact ⟨hbefore _ List.mem_cons_self, by simp⟩
      · obtain ⟨hlt, hin⟩ := ih hrest hsorted hlater
        exact ⟨hlt, List.mem_cons_of_mem _ hin⟩

/-- A walk finds the first node of a chain that is sought, and meets the whole chain if there is
none. -/
theorem Linked.walk (h : Linked nodes link positions) (sought : Node → Bool) {bound : Nat}
    (hbound : positions.length ≤ bound) :
    ∃ met, NameIndex.walk nodes sought bound link =
        .ok ⟨met, positions.find? fun position => (nodes[position]?).any sought⟩ ∧
      met.length ≤ positions.length ∧
      (positions.find? (fun position => (nodes[position]?).any sought) = none →
        met = positions) := by
  induction positions generalizing link bound with
  | nil =>
      have hlink : link = none := h
      subst hlink
      exact ⟨[], by cases bound <;> rfl, Nat.le_refl 0, fun _ => rfl⟩
  | cons position rest ih =>
      obtain ⟨rfl, next, hnext, hrest⟩ := h
      obtain ⟨node, hnode, rfl⟩ := Option.map_eq_some_iff.mp hnext
      cases bound with
      | zero => simp at hbound
      | succ bound =>
          by_cases hsought : sought node = true
          · refine ⟨[position], ?_, by simp, ?_⟩
            · simp [NameIndex.walk, hnode, hsought]
            · simp [hnode, hsought]
          · obtain ⟨met, hwalk, hlength, hall⟩ := ih hrest (Nat.le_of_succ_le_succ hbound)
            refine ⟨position :: met, ?_, Nat.succ_le_succ hlength, ?_⟩
            · simp [NameIndex.walk, hnode, hsought, hwalk, Except.map]
            · intro hnone
              simp only [List.find?_cons, hnode, Option.any_some, hsought] at hnone
              rw [hall hnone]

end Links

/-! ## Operations -/

theorem headOf_of_lt {table : NameIndex} {bucket : Nat} (h : bucket < table.buckets.size) :
    table.headOf bucket = .ok (table.buckets[bucket]?).join := by
  simp [headOf, h]

theorem carries_eq (table : NameIndex) (text : String) (position : Nat) :
    table.carries text position =
      (table.nodes[position]?).any fun node => node.name.text == text := by
  cases hnode : table.nodes[position]? <;> simp [carries, hnode]

/-- The walk of a name finds its node, and meets the whole chain if there is none. -/
theorem Sound.seek {table : NameIndex} (h : table.Sound) (text : String) :
    ∃ met, table.seek text = .ok ⟨met, table.position? text⟩ ∧ met.length ≤ table.size ∧
      (table.position? text = none → met = table.chain (table.bucketOf text)) := by
  have hbucket := h.bucketOf_lt text
  obtain ⟨met, hwalk, hlength, hall⟩ := (h.linked _ hbucket).walk
    (fun node => node.name.text == text) (table.length_residents_le _)
  simp only [← carries_eq, ← h.chain_eq hbucket] at hwalk hlength hall
  refine ⟨met, ?_, ?_, hall⟩
  · rw [NameIndex.seek, headOf_of_lt hbucket]
    exact hwalk
  · rw [h.chain_eq hbucket] at hlength
    exact Nat.le_trans hlength (table.length_residents_le _)

/-- Operations walk to an end and come to what they should, over no more nodes than there are. -/
structure Walkable (table : NameIndex) : Prop where
  get : ∀ text, ∃ steps, steps ≤ table.size ∧
    table.getByWalk text = .ok (table.get? text, steps)
  insert : ∀ name id, ∃ steps, steps ≤ table.size ∧
    table.insertByWalk name id = .ok (table.insert name id, steps)
  lengths : ∃ lengths, table.lengthsByWalk = .ok lengths ∧
    (∀ steps ∈ lengths, steps ≤ table.size) ∧ lengths.foldl max 0 = table.longestChain

theorem Sound.getByWalk {table : NameIndex} (h : table.Sound) (text : String) :
    ∃ steps, steps ≤ table.size ∧ table.getByWalk text = .ok (table.get? text, steps) := by
  obtain ⟨met, hseek, hlength, -⟩ := h.seek text
  refine ⟨met.length, hlength, ?_⟩
  rw [NameIndex.getByWalk, hseek, get?]
  cases table.position? text with
  | none => rfl
  | some position =>
      cases hnode : table.nodes[position]? <;>
        simp [hnode, bind, Except.bind, pure, Except.pure]

theorem Sound.insertByWalk {table : NameIndex} (h : table.Sound) (name : Name) (id : Nat) :
    ∃ steps, steps ≤ table.size ∧
      table.insertByWalk name id = .ok (table.insert name id, steps) := by
  obtain ⟨met, hseek, hlength, hall⟩ := h.seek name.text
  refine ⟨met.length, hlength, ?_⟩
  rw [NameIndex.insertByWalk, hseek, NameIndex.insert]
  cases hfound : table.position? name.text with
  | some position => rfl
  | none =>
      rw [NameIndex.append, ← hall hfound]
      cases hlast : met.getLast? <;> simp [hlast, bind, Except.bind, pure, Except.pure]

theorem toList_buckets (table : NameIndex) :
    table.buckets.toList =
      (List.range table.capacity).map fun bucket => (table.buckets[bucket]?).join := by
  apply List.ext_getElem?
  intro bucket
  by_cases hin : bucket < table.buckets.size <;> simp [capacity, hin]

theorem Sound.lengthsByWalk {table : NameIndex} (h : table.Sound) :
    table.lengthsByWalk =
      .ok ((List.range table.capacity).map fun bucket => (table.chain bucket).length) := by
  rw [NameIndex.lengthsByWalk, toList_buckets, List.mapM_map]
  apply Outcome.mapM_of_forall₂
  rw [List.forall₂_map_right_iff, List.forall₂_same]
  intro bucket hmem
  have hbucket : bucket < table.buckets.size := List.mem_range.mp hmem
  obtain ⟨met, hwalk, -, hall⟩ := (h.linked bucket hbucket).walk (fun _ => false)
    (table.length_residents_le bucket)
  have hnone : (table.residents bucket).find?
      (fun position => (table.nodes[position]?).any fun _ => false) = none := by simp
  rw [Function.comp_apply, hwalk, hall hnone, h.chain_eq hbucket]
  rfl

theorem Sound.walkable {table : NameIndex} (h : table.Sound) : table.Walkable where
  get := h.getByWalk
  insert := h.insertByWalk
  lengths := by
    refine ⟨_, h.lengthsByWalk, ?_, ?_⟩
    · intro steps hmem
      obtain ⟨bucket, hbucket, rfl⟩ := List.mem_map.mp hmem
      rw [h.chain_eq (List.mem_range.mp hbucket)]
      exact table.length_residents_le bucket
    · rw [List.foldl_map, longestChain]

/-! ## Chains -/

/-- The links of an index part its nodes among the chains of its buckets. -/
structure Chained (table : NameIndex) : Prop where
  capacity_pos : 0 < table.capacity
  /-- A link leads on in the arena. -/
  forward : ∀ (position next : Nat) (node : Node), table.nodes[position]? = some node →
    node.next = some next → position < next ∧ next < table.size
  /-- Of all buckets, the one of its name leads to a node, and no other. -/
  home : ∀ (position bucket : Nat) (node : Node), table.nodes[position]? = some node →
    bucket < table.capacity →
      (Leads table.nodes (table.buckets[bucket]?).join position ↔
        bucket = (fnv1a node.name.text).toNat % table.capacity)
  distinct : ∀ (first second : Nat) (node other : Node), table.nodes[first]? = some node →
    table.nodes[second]? = some other → node.name.text = other.name.text → first = second

theorem pairwise_residents (table : NameIndex) (bucket : Nat) :
    (table.residents bucket).Pairwise (· < ·) :=
  List.pairwise_lt_range.filter _

theorem mem_residents_iff {table : NameIndex} {bucket position : Nat} {node : Node}
    (hnode : table.nodes[position]? = some node) :
    position ∈ table.residents bucket ↔ bucket = table.bucketOf node.name.text := by
  rw [mem_residents, getElem?_keys, hnode]
  simp [eq_comm]

theorem Sound.chained {table : NameIndex} (h : table.Sound) : table.Chained where
  capacity_pos := h.buckets_pos
  forward position next node hnode hnext := by
    have hbucket := h.bucketOf_lt node.name.text
    have hmem := (mem_residents_iff hnode).mpr rfl
    obtain ⟨hlt, hin⟩ := (h.linked _ hbucket).next_of_mem (pairwise_residents table _) hmem hnode
      hnext
    exact ⟨hlt, lt_of_mem_residents hin⟩
  home position bucket node hnode hbucket := by
    rw [(h.linked bucket hbucket).leads_iff, mem_residents_iff hnode]
    rfl
  distinct first second node other hfirst hsecond hname := by
    have hkey : table.keys[first]? = table.keys[second]? := by
      rw [getElem?_keys, getElem?_keys, hfirst, hsecond, Option.map_some, Option.map_some, hname]
    have hlt : first < table.keys.length := by
      rw [length_keys]
      exact (Array.getElem?_eq_some_iff.mp hfirst).1
    exact (List.getElem?_inj hlt h.distinct).mp hkey

/-! ## The longest chain -/

/-- A chain is as long as there are names of its bucket. -/
theorem length_residents (table : NameIndex) (bucket : Nat) :
    (table.residents bucket).length =
      (table.keys.filter fun text => table.bucketOf text = bucket).length := by
  have hkeys : (List.range table.keys.length).map (fun position => table.keys[position]?) =
      table.keys.map some := by
    apply List.ext_getElem
    · simp
    · intro position _ _
      simp
  calc (table.residents bucket).length
      = ((List.range table.keys.length).map fun position => table.keys[position]?).countP
          (fun key => key.map table.bucketOf = some bucket) := by
        rw [List.countP_map, List.countP_eq_length_filter]
        rfl
    _ = (table.keys.filter fun text => table.bucketOf text = bucket).length := by
        rw [hkeys, List.countP_map, ← List.countP_eq_length_filter]
        simp [Function.comp_def]

theorem longestChain_eq_max? (table : NameIndex) :
    (0 :: (List.range table.capacity).map fun bucket => (table.chain bucket).length).max? =
      some table.longestChain := by
  rw [List.max?_cons', List.foldl_map, longestChain]

theorem Sound.length_chain {table : NameIndex} (h : table.Sound) {bucket : Nat}
    (hbucket : bucket < table.capacity) :
    (table.chain bucket).length =
      (table.keys.filter fun text => table.bucketOf text = bucket).length := by
  rw [h.chain_eq hbucket, length_residents]

theorem Sound.length_le_longestChain {table : NameIndex} (h : table.Sound) (bucket : Nat) :
    (table.keys.filter fun text => table.bucketOf text = bucket).length ≤ table.longestChain := by
  by_cases hbucket : bucket < table.capacity
  · rw [← h.length_chain hbucket]
    apply (List.max?_eq_some_iff.mp (longestChain_eq_max? table)).2
    exact List.mem_cons_of_mem 0 (List.mem_map_of_mem (List.mem_range.mpr hbucket))
  · have hnone : table.keys.filter (fun text => table.bucketOf text = bucket) = [] := by
      rw [List.filter_eq_nil_iff]
      intro text _ heq
      have hlt := h.bucketOf_lt text
      rw [of_decide_eq_true heq] at hlt
      exact hbucket hlt
    rw [hnone]
    exact Nat.zero_le _

theorem Sound.exists_longestChain {table : NameIndex} (h : table.Sound) :
    ∃ bucket, bucket < table.capacity ∧
      (table.keys.filter fun text => table.bucketOf text = bucket).length =
        table.longestChain := by
  have hmem := (List.max?_eq_some_iff.mp (longestChain_eq_max? table)).1
  rcases List.mem_cons.mp hmem with hzero | hlength
  · have hle := h.length_le_longestChain 0
    exact ⟨0, h.buckets_pos, by omega⟩
  · obtain ⟨bucket, hin, hbucket⟩ := List.mem_map.mp hlength
    have hbucket' := List.mem_range.mp hin
    exact ⟨bucket, hbucket', by rw [← h.length_chain hbucket', hbucket]⟩

theorem capacity_act (table : NameIndex) (action : Action) :
    (table.act action).capacity = table.capacity := by
  cases action with
  | insert name id =>
      rw [act, insert]
      split
      · rfl
      · exact size_buckets_append table _ name id
  | detach => rfl

theorem capacity_run (table : NameIndex) (actions : List Action) :
    (table.run actions).capacity = table.capacity := by
  induction actions generalizing table with
  | nil => rfl
  | cons action rest ih => exact (ih (table.act action)).trans (capacity_act table action)

/-- However an index is built, its links part the nodes among the buckets, its operations walk to
an end, and its longest chain is as long as the largest number of distinct names in one bucket. -/
theorem chained_run (capacity : Nat) (actions : List Action) :
    let table := (withCapacity capacity).run actions
    let sharing := fun bucket => ((insertions actions).map Prod.fst).eraseDups.filter fun text =>
      (fnv1a text).toNat % table.capacity = bucket
    table.capacity = max capacity 1 ∧ table.Chained ∧ table.Walkable ∧
    (∀ bucket, (sharing bucket).length ≤ table.longestChain) ∧
    ∃ bucket, bucket < table.capacity ∧ (sharing bucket).length = table.longestChain := by
  intro table sharing
  have h : Maps (insertions actions) table := by
    simpa using (maps_withCapacity capacity).run actions
  have hkeys : ((insertions actions).map Prod.fst).eraseDups = table.keys := by
    rw [← map_fst_entries, h.entries.keys]
  have hsharing : ∀ bucket,
      sharing bucket = table.keys.filter fun text => table.bucketOf text = bucket := by
    intro bucket
    rw [← hkeys]
    rfl
  simp only [hsharing]
  refine ⟨?_, h.sound.chained, h.sound.walkable, h.sound.length_le_longestChain,
    h.sound.exists_longestChain⟩
  rw [capacity_run, capacity_withCapacity]

/-- Three names in one bucket: the last is met behind the others. -/
example :
    ((withCapacity 0).run [.insert ⟨"a", false⟩ 1, .insert ⟨"b", false⟩ 2, .detach,
      .insert ⟨"a", false⟩ 3, .insert ⟨"", false⟩ 4]).getByWalk "" = .ok (some 4, 3) := by
  decide +kernel

end TypeAtlas.NameIndex
