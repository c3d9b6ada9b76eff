import TypeAtlas.Proofs.NameIndex.Chains

/-!
# Insertion into a name index

A sound table answers like the list of its entries, and an insertion keeps it sound: it
changes the number of the one entry that has the name, or adds an entry behind all others.
How many buckets there are and how names hash has no part in any answer.
-/

namespace TypeAtlas.NameIndex

theorem sound_withCapacity (capacity : Nat) : (withCapacity capacity).Sound where
  buckets_pos := by
    simp only [withCapacity, Array.size_replicate]
    omega
  linked bucket hbucket := by
    have hsize : bucket < max capacity 1 := by simpa [withCapacity] using hbucket
    simp [withCapacity, residents, keys, Linked, hsize]
  distinct := by simp [withCapacity, keys]

/-! ## Look-up -/

theorem Sound.position?_eq_some_iff {table : NameIndex} (h : table.Sound) {text : String}
    {position : Nat} :
    table.position? text = some position ↔ table.keys[position]? = some text := by
  have hcarries : ∀ other, table.carries text other = true ↔ table.keys[other]? = some text := by
    intro other
    rw [getElem?_keys]
    cases hnode : table.nodes[other]? <;> simp [carries, hnode]
  rw [h.position?_eq]
  constructor
  · intro hfound
    exact (hcarries position).mp (List.find?_some hfound)
  · intro hkey
    cases hfound : (List.range table.nodes.size).find? (table.carries text) with
    | none =>
        have hin := (List.getElem?_eq_some_iff.mp hkey).1
        rw [length_keys] at hin
        have hother := List.find?_eq_none.mp hfound position (List.mem_range.mpr hin)
        exact absurd ((hcarries position).mpr hkey) hother
    | some other =>
        have hother := (hcarries other).mp (List.find?_some hfound)
        have hlt := (List.getElem?_eq_some_iff.mp hother).1
        rw [(List.getElem?_inj hlt h.distinct).mp (hother.trans hkey.symm)]

theorem Sound.position?_eq_none_iff {table : NameIndex} (h : table.Sound) {text : String} :
    table.position? text = none ↔ text ∉ table.keys := by
  constructor
  · intro hnone hmem
    obtain ⟨position, hkey⟩ := List.getElem?_of_mem hmem
    rw [(h.position?_eq_some_iff).mpr hkey] at hnone
    cases hnone
  · intro hnew
    cases hfound : table.position? text with
    | none => rfl
    | some position =>
        exact absurd (List.mem_of_getElem? ((h.position?_eq_some_iff).mp hfound)) hnew

theorem map_fst_entries (table : NameIndex) : table.entries.map Prod.fst = table.keys := by
  simp [entries, keys]

theorem lookup_of_mem {entries : List (String × Nat)} (hdistinct : (entries.map Prod.fst).Nodup)
    {text : String} {id : Nat} (hmem : (text, id) ∈ entries) : entries.lookup text = some id := by
  induction entries with
  | nil => cases hmem
  | cons entry rest ih =>
      obtain ⟨hfirst, hrest⟩ := List.nodup_cons.mp hdistinct
      rcases List.mem_cons.mp hmem with rfl | hlater
      · simp
      · have hne : (text == entry.1) = false := by
          rw [beq_eq_false_iff_ne]
          intro heq
          exact hfirst (List.mem_map.mpr ⟨(text, id), hlater, heq⟩)
        rw [List.lookup_cons, hne]
        exact ih hrest hlater

theorem lookup_renumber (entries : List (String × Nat)) (name : String) (id : Nat)
    (text : String) :
    (entries.map fun entry => if entry.1 = name then (entry.1, id) else entry).lookup text =
      if name = text then (entries.lookup text).map fun _ => id else entries.lookup text := by
  induction entries with
  | nil => simp
  | cons entry rest ih =>
      obtain ⟨first, number⟩ := entry
      by_cases htext : text = first
      · subst htext
        by_cases hname : text = name
        · simp [hname]
        · simp [hname, Ne.symm hname]
      · have hne : (text == first) = false := by simpa using htext
        have hskip : ∀ (value : Nat) more, List.lookup text ((first, value) :: more) =
            List.lookup text more := by
          intro value more
          rw [List.lookup_cons, hne]
        by_cases hname : first = name
        · simp only [List.map_cons, if_pos hname, hskip, ih]
        · simp only [List.map_cons, if_neg hname, hskip, ih]

theorem lookup_entries_isSome (table : NameIndex) (text : String) :
    (table.entries.lookup text).isSome ↔ text ∈ table.keys := by
  rw [List.lookup_isSome_iff, ← map_fst_entries, List.mem_map]
  constructor
  · intro h
    obtain ⟨entry, hmem, heq⟩ := h
    exact ⟨entry, hmem, (eq_of_beq heq).symm⟩
  · intro h
    obtain ⟨entry, hmem, heq⟩ := h
    exact ⟨entry, hmem, by simp [heq]⟩

/-- A sound table answers like the list of its entries. -/
theorem Sound.get?_eq_lookup {table : NameIndex} (h : table.Sound) (text : String) :
    table.get? text = table.entries.lookup text := by
  have hdistinct : (table.entries.map Prod.fst).Nodup := by
    rw [map_fst_entries]
    exact h.distinct
  cases hfound : table.position? text with
  | none =>
      have hnew := (h.position?_eq_none_iff).mp hfound
      have hnone : table.entries.lookup text = none := by
        rw [← lookup_entries_isSome, Option.not_isSome_iff_eq_none] at hnew
        exact hnew
      simp [get?, hfound, hnone]
  | some position =>
      have hkey := (h.position?_eq_some_iff).mp hfound
      rw [getElem?_keys] at hkey
      obtain ⟨node, hnode, hname⟩ := Option.map_eq_some_iff.mp hkey
      have hmem : (text, node.id) ∈ table.entries := by
        rw [← hname]
        exact List.mem_map.mpr ⟨node, Array.mem_toList_iff.mpr (Array.mem_of_getElem? hnode), rfl⟩
      simp [get?, hfound, hnode, lookup_of_mem hdistinct hmem]

/-! ## Entries after an insertion -/

theorem getElem?_entries (table : NameIndex) (position : Nat) :
    table.entries[position]? =
      (table.nodes[position]?).map fun node => (node.name.text, node.id) := by
  simp [entries]

theorem Sound.entries_insert_of_mem {table : NameIndex} (h : table.Sound) {name : Name}
    (id : Nat) (hmem : name.text ∈ table.keys) :
    (table.insert name id).entries =
      table.entries.map fun entry => if entry.1 = name.text then (entry.1, id) else entry := by
  obtain ⟨position, hkey⟩ := List.getElem?_of_mem hmem
  apply List.ext_getElem?
  intro other
  rw [List.getElem?_map, getElem?_entries, getElem?_entries]
  simp only [insert, (h.position?_eq_some_iff).mpr hkey, Array.getElem?_modify]
  cases hnode : table.nodes[other]? with
  | none => simp
  | some node =>
      have hother : table.keys[other]? = some node.name.text := by
        rw [getElem?_keys, hnode, Option.map_some]
      by_cases heq : position = other
      · subst heq
        have hname : name.text = node.name.text := Option.some.inj (hkey.symm.trans hother)
        simp [hname]
      · have hname : node.name.text ≠ name.text := by
          intro hname
          have hlt := (List.getElem?_eq_some_iff.mp hkey).1
          exact heq ((List.getElem?_inj hlt h.distinct).mp (by rw [hkey, hother, hname]))
        simp [heq, hname]

theorem entries_append (table : NameIndex) (bucket : Nat) (name : Name) (id : Nat) :
    (table.append bucket name id).entries = table.entries ++ [(name.text, id)] := by
  have hlink : ∀ last next,
      (table.nodes.modify last fun node => { node with next := next }).toList.map
        (fun node => (node.name.text, node.id)) = table.entries := by
    intro last next
    apply List.ext_getElem?
    intro position
    rw [getElem?_entries]
    by_cases hlast : last = position
    · simp [hlast, Function.comp_def]
    · simp [hlast]
  unfold append
  cases (table.chain bucket).getLast? with
  | none => simp [entries]
  | some last =>
      simp only [entries, Array.toList_push, List.map_append, List.map_cons, List.map_nil]
      rw [hlink, entries]

theorem Sound.entries_insert_of_not_mem {table : NameIndex} (h : table.Sound) {name : Name}
    (id : Nat) (hnew : name.text ∉ table.keys) :
    (table.insert name id).entries = table.entries ++ [(name.text, id)] := by
  simp only [insert, (h.position?_eq_none_iff).mpr hnew]
  exact entries_append table _ name id

/-! ## The invariant after an insertion -/

theorem keys_insert_of_mem {table : NameIndex} (h : table.Sound) {name : Name} (id : Nat)
    (hmem : name.text ∈ table.keys) : (table.insert name id).keys = table.keys := by
  rw [← map_fst_entries, ← map_fst_entries, h.entries_insert_of_mem id hmem, List.map_map]
  apply List.map_congr_left
  intro entry _
  simp only [Function.comp_apply]
  split <;> rfl

theorem residents_congr {table other : NameIndex}
    (hsize : other.buckets.size = table.buckets.size) (hkeys : other.keys = table.keys)
    (bucket : Nat) : other.residents bucket = table.residents bucket := by
  have hbucket : other.bucketOf = table.bucketOf := by
    funext text
    rw [bucketOf, hsize, bucketOf]
  rw [residents, hkeys, hbucket, residents]

/-- A new node is the last resident of its bucket, and no resident of any other. -/
theorem residents_concat {table other : NameIndex} {text : String}
    (hsize : other.buckets.size = table.buckets.size) (hkeys : other.keys = table.keys ++ [text])
    (bucket : Nat) :
    other.residents bucket = table.residents bucket ++
      if table.bucketOf text = bucket then [table.nodes.size] else [] := by
  have hbucket : other.bucketOf = table.bucketOf := by
    funext name
    rw [bucketOf, hsize, bucketOf]
  rw [residents, residents, hkeys, hbucket, List.length_append, List.length_singleton,
    List.range_succ, List.filter_append]
  congr 1
  · apply List.filter_congr
    intro position hmem
    rw [List.getElem?_append_left (List.mem_range.mp hmem)]
  · by_cases hhome : table.bucketOf text = bucket <;> simp [hhome]

theorem map_next_modify (nodes : Array Node) (last position : Nat) (change : Node → Node) :
    ((nodes.modify last change)[position]?).map Node.next =
      (nodes[position]?).map fun node =>
        if last = position then (change node).next else node.next := by
  rw [Array.getElem?_modify]
  by_cases heq : last = position
  · simp [heq, Function.comp_def]
  · simp only [if_neg heq]

theorem Sound.insert_of_mem {table : NameIndex} (h : table.Sound) {name : Name} (id : Nat)
    (hmem : name.text ∈ table.keys) : (table.insert name id).Sound := by
  have hkeys := keys_insert_of_mem h id hmem
  obtain ⟨position, hkey⟩ := List.getElem?_of_mem hmem
  have hinsert : table.insert name id =
      { table with nodes := table.nodes.modify position fun node => { node with id := id } } := by
    simp only [NameIndex.insert, (h.position?_eq_some_iff).mpr hkey]
  have hbuckets : (table.insert name id).buckets = table.buckets := by rw [hinsert]
  refine ⟨by rw [hbuckets]; exact h.buckets_pos, ?_, by rw [hkeys]; exact h.distinct⟩
  intro bucket hbucket
  rw [residents_congr (by rw [hbuckets]) hkeys, hbuckets]
  rw [hbuckets] at hbucket
  apply (h.linked bucket hbucket).congr
  intro other _
  rw [hinsert, map_next_modify]
  simp

theorem keys_append (table : NameIndex) (bucket : Nat) (name : Name) (id : Nat) :
    (table.append bucket name id).keys = table.keys ++ [name.text] := by
  rw [← map_fst_entries, entries_append, List.map_append, map_fst_entries]
  rfl

theorem size_buckets_append (table : NameIndex) (bucket : Nat) (name : Name) (id : Nat) :
    (table.append bucket name id).buckets.size = table.buckets.size := by
  unfold append
  split <;> simp

/-- The first node of a bucket is found from the bucket itself, and no link changes. -/
theorem Sound.linked_append_first {table : NameIndex} (h : table.Sound) (name : Name) (id : Nat)
    (hempty : table.residents (table.bucketOf name.text) = []) {bucket : Nat}
    (hbucket : bucket < table.buckets.size) :
    Linked (table.append (table.bucketOf name.text) name id).nodes
      ((table.append (table.bucketOf name.text) name id).buckets[bucket]?).join
      (table.residents bucket ++
        if table.bucketOf name.text = bucket then [table.nodes.size] else []) := by
  have hhome := h.bucketOf_lt name.text
  have hlast : (table.residents (table.bucketOf name.text)).getLast? = none := by rw [hempty]; rfl
  simp only [NameIndex.append, h.chain_eq hhome, hlast]
  by_cases heq : table.bucketOf name.text = bucket
  · subst heq
    rw [hempty]
    simp [Linked, hhome]
  · rw [if_neg heq, List.append_nil, Array.getElem?_setIfInBounds_ne heq]
    apply (h.linked bucket hbucket).congr
    intro position hmem
    have hlt := lt_of_mem_residents hmem
    rw [Array.getElem?_push_lt hlt, Array.getElem?_eq_getElem hlt]

/-- A later node is linked to the last of its bucket, which no other chain meets. -/
theorem Sound.linked_append_behind {table : NameIndex} (h : table.Sound) (name : Name) (id : Nat)
    {last : Nat} (hlast : (table.residents (table.bucketOf name.text)).getLast? = some last)
    {bucket : Nat} (hbucket : bucket < table.buckets.size) :
    Linked (table.append (table.bucketOf name.text) name id).nodes
      ((table.append (table.bucketOf name.text) name id).buckets[bucket]?).join
      (table.residents bucket ++
        if table.bucketOf name.text = bucket then [table.nodes.size] else []) := by
  have hresident := List.mem_of_getLast? hlast
  have hin := lt_of_mem_residents hresident
  have hlinked := h.linked bucket hbucket
  simp only [NameIndex.append, h.chain_eq (h.bucketOf_lt name.text), hlast]
  -- Besides the new node only the link of `last` differs from before.
  have hkept : ∀ position ∈ table.residents bucket, position ≠ last →
      (((table.nodes.modify last fun node => { node with next := some table.nodes.size }).push
        ⟨name, id, none⟩)[position]?).map Node.next =
        (table.nodes[position]?).map Node.next := by
    intro position hmem hne
    have hlt := lt_of_mem_residents hmem
    rw [Array.getElem?_push, Array.size_modify, if_neg (Nat.ne_of_lt hlt), map_next_modify]
    simp only [if_neg (Ne.symm hne)]
  by_cases heq : table.bucketOf name.text = bucket
  · subst heq
    rw [if_pos rfl]
    apply hlinked.concat (table.nodup_residents _) hlast hkept
    · rw [Array.getElem?_push, Array.size_modify, if_neg (Nat.ne_of_lt hin), map_next_modify]
      simp [hin]
    · rw [Array.getElem?_push, Array.size_modify, if_pos rfl, Option.map_some]
  · rw [if_neg heq, List.append_nil]
    apply hlinked.congr
    intro position hmem
    apply hkept position hmem
    rintro rfl
    exact heq (eq_of_mem_residents hresident hmem)

theorem Sound.append {table : NameIndex} (h : table.Sound) {name : Name} (id : Nat)
    (hnew : name.text ∉ table.keys) :
    (table.append (table.bucketOf name.text) name id).Sound := by
  have hsize := size_buckets_append table (table.bucketOf name.text) name id
  have hkeys := keys_append table (table.bucketOf name.text) name id
  constructor
  · rw [hsize]
    exact h.buckets_pos
  · intro bucket hbucket
    rw [hsize] at hbucket
    rw [residents_concat hsize hkeys]
    cases hlast : (table.residents (table.bucketOf name.text)).getLast? with
    | none => exact h.linked_append_first name id (List.getLast?_eq_none_iff.mp hlast) hbucket
    | some last => exact h.linked_append_behind name id hlast hbucket
  · rw [hkeys, List.nodup_append]
    refine ⟨h.distinct, by simp, ?_⟩
    intro text hmem other hother heq
    rw [List.mem_singleton.mp hother] at heq
    exact hnew (heq ▸ hmem)

theorem Sound.insert {table : NameIndex} (h : table.Sound) (name : Name) (id : Nat) :
    (table.insert name id).Sound := by
  by_cases hmem : name.text ∈ table.keys
  · exact h.insert_of_mem id hmem
  · have happend := h.append id hmem
    simpa only [NameIndex.insert, (h.position?_eq_none_iff).mpr hmem] using happend

/-- The name that is inserted is found with its number, and every other name as before. -/
theorem Sound.get?_insert {table : NameIndex} (h : table.Sound) (name : Name) (id : Nat)
    (text : String) :
    (table.insert name id).get? text =
      if name.text = text then some id else table.get? text := by
  rw [(h.insert name id).get?_eq_lookup, h.get?_eq_lookup]
  by_cases hmem : name.text ∈ table.keys
  · rw [h.entries_insert_of_mem id hmem, lookup_renumber]
    by_cases htext : name.text = text
    · subst htext
      rw [← lookup_entries_isSome] at hmem
      obtain ⟨number, hnumber⟩ := Option.isSome_iff_exists.mp hmem
      simp [hnumber]
    · simp only [if_neg htext]
  · rw [h.entries_insert_of_not_mem id hmem, List.lookup_append]
    by_cases htext : name.text = text
    · subst htext
      rw [← lookup_entries_isSome, Option.not_isSome_iff_eq_none] at hmem
      simp [hmem]
    · have hne : (text == name.text) = false := by simpa using Ne.symm htext
      simp [htext, List.lookup_cons, hne]

end TypeAtlas.NameIndex
