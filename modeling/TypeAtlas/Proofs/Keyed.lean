import Mathlib.Data.List.Basic
import Mathlib.Data.List.Forall2
import Mathlib.Data.List.Induction
import Mathlib.Data.List.Perm.Subperm

/-!
# Entries under keys

Entries come one after the other, each under a key. A table of them has every key once, at
the place at which it first came, and under it the entry that came last. Such a table is
kept by putting each new entry in the place of the one under its key, or behind all others.
Some of the entries may be replaced by others that have the same table, such as their table.
-/

namespace TypeAtlas.Keyed

variable {α κ : Type} [DecidableEq κ]

/-! ## Distinct keys -/

theorem eraseDups_concat (keys : List κ) (k : κ) :
    (keys ++ [k]).eraseDups = if k ∈ keys then keys.eraseDups else keys.eraseDups ++ [k] := by
  rw [List.eraseDups_append]
  by_cases h : k ∈ keys
  · simp [List.cons_removeAll, h]
  · simp [List.cons_removeAll, List.eraseDups_cons, h]

theorem nodup_eraseDups (keys : List κ) : keys.eraseDups.Nodup := by
  cases keys with
  | nil => simp
  | cons k rest =>
    rw [List.eraseDups_cons, List.nodup_cons]
    constructor
    · rw [List.mem_eraseDups]
      simp
    · exact nodup_eraseDups _
termination_by keys.length
decreasing_by
  have hle := List.length_filter_le (fun other => !other == k) rest
  rw [List.length_cons]
  omega

/-- Keys may as well be told apart before they are put behind others. -/
theorem eraseDups_append_eraseDups (front keys : List κ) :
    (front ++ keys.eraseDups).eraseDups = (front ++ keys).eraseDups := by
  induction keys using List.reverseRecOn with
  | nil => rfl
  | append_singleton keys k ih =>
    have hmem : k ∈ front ++ keys.eraseDups ↔ k ∈ front ++ keys := by
      rw [List.mem_append, List.mem_append, List.mem_eraseDups]
    rw [eraseDups_concat]
    by_cases hk : k ∈ keys
    · rw [if_pos hk, ih, ← List.append_assoc, eraseDups_concat,
        if_pos (List.mem_append_right front hk)]
    · rw [if_neg hk, ← List.append_assoc, ← List.append_assoc, eraseDups_concat, eraseDups_concat,
        ih]
      simp only [hmem]

theorem length_eraseDups_le (keys : List κ) : keys.eraseDups.length ≤ keys.length :=
  (List.subperm_of_subset (nodup_eraseDups keys) fun _ => List.mem_eraseDups.mp).length_le

/-- A new key behind all others is first found there. -/
theorem idxOf?_concat {keys : List κ} {k : κ} (hnew : k ∉ keys) (other : κ) :
    (keys ++ [k]).idxOf? other = if k = other then some keys.length else keys.idxOf? other := by
  induction keys with
  | nil =>
    by_cases h : k = other
    · simp [List.idxOf?_cons, h]
    · simp [List.idxOf?_cons, h]
  | cons first rest ih =>
    rw [List.mem_cons, not_or] at hnew
    rw [List.cons_append, List.idxOf?_cons, List.idxOf?_cons, ih hnew.2]
    by_cases hfirst : first = other
    · have hne : k ≠ other := hfirst ▸ hnew.1
      simp [hfirst, hne]
    · by_cases h : k = other <;> simp [hfirst, h]

/-- Distinct keys are first found where they stand. -/
theorem idxOf?_of_nodup {keys : List κ} (hnodup : keys.Nodup) {k : κ} {position : Nat}
    (hposition : keys[position]? = some k) : keys.idxOf? k = some position := by
  obtain ⟨hlt, hk⟩ := List.getElem?_eq_some_iff.mp hposition
  rw [List.idxOf?_eq_some_iff]
  refine ⟨hlt, hk, ?_⟩
  intro earlier hearlier hsame
  have hin := Nat.lt_trans hearlier hlt
  have heq : earlier = position := by
    apply (List.getElem?_inj hin hnodup).mp
    rw [hposition, List.getElem?_eq_getElem hin, hsame]
  omega

variable (key : α → κ)

/-! ## Tables -/

def last? (entries : List α) (k : κ) : Option α :=
  entries.reverse.find? fun entry => key entry = k

/-- A table with the keys of some entries in the order in which they first came, and under
each of them the entry that came last. -/
structure Tabulates (entries table : List α) : Prop where
  keys : table.map key = (entries.map key).eraseDups
  last : ∀ k, table.find? (fun entry => key entry = k) = last? key entries k

/-- Entries that have the same table: the same keys first come in the same order, and the same
entries come last. -/
structure Alike (entries others : List α) : Prop where
  keys : (entries.map key).eraseDups = (others.map key).eraseDups
  last : ∀ k, last? key entries k = last? key others k

/-- Put an entry in the place of the one under its key, or behind all if there is none. -/
def place (entry : α) : List α → List α
  | [] => [entry]
  | first :: rest => if key first = key entry then entry :: rest else first :: place entry rest

variable {key} {entries table : List α} {entry : α}

theorem last?_concat (entries : List α) (entry : α) (k : κ) :
    last? key (entries ++ [entry]) k =
      if key entry = k then some entry else last? key entries k := by
  rw [last?, List.reverse_append, List.reverse_singleton, List.singleton_append, List.find?_cons]
  by_cases h : key entry = k
  · simp [h]
  · simp [h, last?]

/-- The last entry under a key is one with no other of its key behind it. -/
theorem last?_eq_some_iff {k : κ} :
    last? key entries k = some entry ↔
      key entry = k ∧ ∃ before after, entries = before ++ entry :: after ∧
        ∀ later ∈ after, key later ≠ k := by
  rw [last?, List.find?_eq_some_iff_append, decide_eq_true_eq]
  refine and_congr_right fun _ => ?_
  constructor
  · intro hgiven
    rcases hgiven with ⟨after, before, heq, hafter⟩
    refine ⟨before.reverse, after.reverse, ?_, ?_⟩
    · rw [← List.reverse_inj, heq]
      simp
    · intro later hmem
      simpa using hafter later (List.mem_reverse.mp hmem)
  · intro hgiven
    rcases hgiven with ⟨before, after, rfl, hafter⟩
    refine ⟨after.reverse, before.reverse, by simp, ?_⟩
    intro later hmem
    simpa using hafter later (List.mem_reverse.mp hmem)

theorem lookup_eq_find? {β : Type} (pairs : List (κ × β)) (k : κ) :
    pairs.lookup k = (pairs.find? fun pair => pair.1 = k).map Prod.snd := by
  induction pairs with
  | nil => rfl
  | cons pair rest ih =>
    rw [List.lookup_cons, List.find?_cons, ih]
    by_cases h : k = pair.1
    · simp [h]
    · have hne : (k == pair.1) = false := by simpa using h
      simp [hne, Ne.symm h]

theorem last?_eq_none_iff {k : κ} : last? key entries k = none ↔ k ∉ entries.map key := by
  simp [last?]

theorem last?_append (front back : List α) (k : κ) :
    last? key (front ++ back) k = (last? key back k).or (last? key front k) := by
  rw [last?, List.reverse_append, List.find?_append]
  rfl

theorem last?_flatMap_eq_none {β : Type} {entriesOf : β → List α} {groups : List β} {k : κ}
    (h : ∀ group ∈ groups, last? key (entriesOf group) k = none) :
    last? key (groups.flatMap entriesOf) k = none := by
  rw [last?_eq_none_iff]
  intro hmem
  obtain ⟨entry, hentry, hkey⟩ := List.mem_map.mp hmem
  obtain ⟨group, hgroup, hentry⟩ := List.mem_flatMap.mp hentry
  exact last?_eq_none_iff.mp (h group hgroup) (List.mem_map.mpr ⟨entry, hentry, hkey⟩)

/-- The last entry of several groups comes from the last group that has one. -/
theorem last?_flatMap_eq_some_iff {β : Type} {entriesOf : β → List α} {groups : List β} {k : κ} :
    last? key (groups.flatMap entriesOf) k = some entry ↔
      ∃ before group after, groups = before ++ group :: after ∧
        last? key (entriesOf group) k = some entry ∧
        ∀ later ∈ after, last? key (entriesOf later) k = none := by
  constructor
  · intro h
    induction groups with
    | nil => cases h
    | cons first rest ih =>
      rw [List.flatMap_cons, last?_append, Option.or_eq_some_iff] at h
      rcases h with hrest | ⟨hnone, hfirst⟩
      · obtain ⟨before, group, after, rfl, hgroup, hafter⟩ := ih hrest
        exact ⟨first :: before, group, after, rfl, hgroup, hafter⟩
      · refine ⟨[], first, rest, rfl, hfirst, ?_⟩
        intro later hlater
        rw [last?_eq_none_iff] at hnone ⊢
        intro hmem
        obtain ⟨other, hother, hkey⟩ := List.mem_map.mp hmem
        exact hnone (List.mem_map.mpr ⟨other, List.mem_flatMap.mpr ⟨later, hlater, hother⟩, hkey⟩)
  · intro hgiven
    rcases hgiven with ⟨before, group, after, rfl, hgroup, hafter⟩
    rw [List.flatMap_append, List.flatMap_cons, last?_append, last?_append,
      last?_flatMap_eq_none hafter, hgroup]
    rfl

theorem last?_map {β : Type} (key : α → κ) (f : β → α) (entries : List β) (k : κ) :
    last? key (entries.map f) k = (last? (key ∘ f) entries k).map f := by
  rw [last?, ← List.map_reverse, List.find?_map]
  rfl

/-- The last entry under a key stands at the last of the numbers that entries under the key
have. -/
theorem bind_last?_zipIdx (key : α → κ) (entries : List α) (k : κ) :
    ((last? Prod.fst (entries.zipIdx.map fun entry => (key entry.1, entry.2)) k).map
      Prod.snd).bind (entries[·]?) = last? key entries k := by
  have hkey : last? key entries k = (last? (key ∘ Prod.fst) entries.zipIdx k).map Prod.fst := by
    rw [← last?_map, List.zipIdx_map_fst]
  rw [last?_map, hkey]
  cases hlast : last? (key ∘ Prod.fst) entries.zipIdx k with
  | none =>
    simp only [Function.comp_def] at hlast ⊢
    simp [hlast]
  | some found =>
    obtain ⟨-, before, after, hsplit, -⟩ := last?_eq_some_iff.mp hlast
    have hmem : found ∈ entries.zipIdx := by simp [hsplit]
    have hthere : entries[found.2]? = some found.1 := List.mem_zipIdx_iff_getElem?.mp hmem
    simp only [Function.comp_def] at hlast ⊢
    simp [hlast, hthere]

/-- Where entries go along with others of the same keys, so do the last ones under a key. -/
theorem rel_last? {β : Type} {other : β → κ} {relation : α → β → Prop} {others : List β}
    (h : List.Forall₂ relation entries others)
    (hkey : ∀ entry partner, relation entry partner → key entry = other partner) (k : κ) :
    Option.Rel relation (last? key entries k) (last? other others k) := by
  have hreverse : List.Forall₂ relation entries.reverse others.reverse :=
    List.forall₂_reverse_iff.mpr h
  rw [last?, last?]
  generalize entries.reverse = back, others.reverse = otherBack at hreverse
  induction hreverse with
  | nil => exact .none
  | @cons entry partner _ _ hfirst _ ih =>
    have hsame := hkey entry partner hfirst
    by_cases heq : key entry = k
    · rw [List.find?_cons_of_pos (by simpa using heq),
        List.find?_cons_of_pos (by simpa [← hsame] using heq)]
      exact .some hfirst
    · rw [List.find?_cons_of_neg (by simpa using heq),
        List.find?_cons_of_neg (by simpa [← hsame] using heq)]
      exact ih

theorem Tabulates.nodup_keys (h : Tabulates key entries table) : (table.map key).Nodup := by
  rw [h.keys]
  exact nodup_eraseDups _

theorem Tabulates.mem_keys_iff (h : Tabulates key entries table) {k : κ} :
    k ∈ table.map key ↔ k ∈ entries.map key := by
  rw [h.keys, List.mem_eraseDups]

/-- What a table of distinct keys has at a place is found under its key. -/
theorem find?_key_of_mem (hnodup : (table.map key).Nodup) (hmem : entry ∈ table) :
    table.find? (fun other => key other = key entry) = some entry := by
  induction table with
  | nil => cases hmem
  | cons first rest ih =>
    obtain ⟨hfirst, hrest⟩ := List.nodup_cons.mp hnodup
    rcases List.mem_cons.mp hmem with rfl | hlater
    · simp
    · have hne : key first ≠ key entry := by
        intro heq
        exact hfirst (heq ▸ List.mem_map_of_mem hlater)
      rw [List.find?_cons_of_neg (by simpa using hne), ih hrest hlater]

/-- In a table every entry is the last one under its key. -/
theorem last?_of_nodup (hnodup : (table.map key).Nodup) (k : κ) :
    last? key table k = table.find? fun entry => key entry = k := by
  cases hlast : last? key table k with
  | none =>
    rw [last?_eq_none_iff] at hlast
    symm
    rw [List.find?_eq_none]
    intro entry hmem hkey
    exact hlast (List.mem_map.mpr ⟨entry, hmem, of_decide_eq_true hkey⟩)
  | some entry =>
    obtain ⟨rfl, before, after, rfl, -⟩ := last?_eq_some_iff.mp hlast
    exact (find?_key_of_mem hnodup (by simp)).symm

theorem Tabulates.last?_of_mem (h : Tabulates key entries table) (hmem : entry ∈ table) :
    last? key entries (key entry) = some entry := by
  rw [← h.last, find?_key_of_mem h.nodup_keys hmem]

/-- There is only one table of some entries. -/
theorem Tabulates.unique {other : List α} (h : Tabulates key entries table)
    (hother : Tabulates key entries other) : table = other := by
  have hlisted : ∀ {table : List α}, Tabulates key entries table →
      table = (entries.map key).eraseDups.filterMap (last? key entries) := by
    intro table h
    have hfound : ∀ entry ∈ table, (last? key entries ∘ key) entry = some entry :=
      fun _ hmem => h.last?_of_mem hmem
    rw [← h.keys, List.filterMap_map, List.filterMap_congr hfound, List.filterMap_some]
  rw [hlisted h, hlisted hother]

theorem tabulates_nil : Tabulates key ([] : List α) [] where
  keys := rfl
  last _ := rfl

/-! ## Entries with the same table -/

theorem Alike.tabulates (h : Alike key entries others) (htable : Tabulates key others table) :
    Tabulates key entries table where
  keys := htable.keys.trans h.keys.symm
  last k := (htable.last k).trans (h.last k).symm

/-- A table is like the entries it is of. -/
theorem Tabulates.alike (h : Tabulates key entries table) : Alike key table entries where
  keys := by
    have hkeys := eraseDups_append_eraseDups [] (entries.map key)
    rw [h.keys]
    exact hkeys
  last k := (last?_of_nodup h.nodup_keys k).trans (h.last k)

theorem Alike.append_left (h : Alike key entries others) (front : List α) :
    Alike key (front ++ entries) (front ++ others) where
  keys := by
    rw [List.map_append, List.map_append, ← eraseDups_append_eraseDups, h.keys,
      eraseDups_append_eraseDups]
  last k := by rw [last?_append, last?_append, h.last]

theorem Alike.append_right (h : Alike key entries others) (back : List α) :
    Alike key (entries ++ back) (others ++ back) where
  keys := by
    have hmem : ∀ k, k ∈ entries.map key ↔ k ∈ others.map key := by
      intro k
      rw [← List.mem_eraseDups, h.keys, List.mem_eraseDups]
    have hremoved : (back.map key).removeAll (entries.map key) =
        (back.map key).removeAll (others.map key) := by
      unfold List.removeAll
      congr 1
      funext k
      simpa using hmem k
    rw [List.map_append, List.map_append, List.eraseDups_append, List.eraseDups_append, h.keys,
      hremoved]
  last k := by rw [last?_append, last?_append, h.last]

/-- Entries that come again change nothing. -/
theorem alike_append_self (entries : List α) : Alike key (entries ++ entries) entries where
  keys := by
    have hnone : (entries.map key).removeAll (entries.map key) = [] := by
      rw [List.removeAll, List.filter_eq_nil_iff]
      simp
    rw [List.map_append, List.eraseDups_append, hnone, List.eraseDups_nil, List.append_nil]
  last k := by
    rw [last?_append, Option.or_self]

/-! ## Placing an entry -/

theorem place_of_not_mem (h : key entry ∉ table.map key) :
    place key entry table = table ++ [entry] := by
  induction table with
  | nil => rfl
  | cons first rest ih =>
    rw [List.map_cons, List.mem_cons, not_or] at h
    rw [place, if_neg (Ne.symm h.1), ih h.2, List.cons_append]

/-- The first entry under the key is replaced, wherever it stands. -/
theorem place_of_idxOf? {position : Nat}
    (h : (table.map key).idxOf? (key entry) = some position) :
    place key entry table = table.set position entry := by
  induction table generalizing position with
  | nil => simp at h
  | cons first rest ih =>
    rw [List.map_cons, List.idxOf?_cons] at h
    by_cases heq : key first = key entry
    · simp only [heq, beq_self_eq_true, if_true, Option.some.injEq] at h
      subst h
      rw [place, if_pos heq, List.set_cons_zero]
    · have hne : (key first == key entry) = false := by simpa using heq
      simp only [hne, Bool.false_eq_true, if_false, Option.map_eq_some_iff] at h
      obtain ⟨behind, hbehind, rfl⟩ := h
      rw [place, if_neg heq, ih hbehind, List.set_cons_succ]

/-- Where keys are distinct, the entry under the key is replaced. -/
theorem place_of_mem (hnodup : (table.map key).Nodup) (hmem : key entry ∈ table.map key) :
    place key entry table =
      table.map fun other => if key other = key entry then entry else other := by
  induction table with
  | nil => cases hmem
  | cons first rest ih =>
    obtain ⟨hfirst, hrest⟩ := List.nodup_cons.mp hnodup
    by_cases heq : key first = key entry
    · have hkept : rest.map (fun other => if key other = key entry then entry else other) =
          rest := by
        refine (List.map_congr_left ?_).trans (List.map_id rest)
        intro other hother
        refine if_neg fun hkey => hfirst ?_
        rw [heq, ← hkey]
        exact List.mem_map_of_mem hother
      rw [place, if_pos heq, List.map_cons, if_pos heq, hkept]
    · have hlater : key entry ∈ rest.map key := by
        rw [List.map_cons, List.mem_cons] at hmem
        exact hmem.resolve_left (Ne.symm heq)
      rw [place, if_neg heq, List.map_cons, if_neg heq, ih hrest hlater]

/-- A key that is new goes behind all others, and one that is known keeps its place. -/
theorem map_key_place (entry : α) (table : List α) :
    (place key entry table).map key =
      if key entry ∈ table.map key then table.map key else table.map key ++ [key entry] := by
  induction table with
  | nil => simp [place]
  | cons first rest ih =>
    by_cases heq : key first = key entry
    · simp [place, heq]
    · rw [place, if_neg heq, List.map_cons, ih]
      have hne : key entry ≠ key first := Ne.symm heq
      by_cases hmem : key entry ∈ rest.map key
      · rw [if_pos hmem, if_pos (by rw [List.map_cons]; exact List.mem_cons_of_mem _ hmem),
          List.map_cons]
      · have hnew : key entry ∉ (first :: rest).map key := by
          rw [List.map_cons, List.mem_cons, not_or]
          exact ⟨hne, hmem⟩
        rw [if_neg hmem, if_neg hnew, List.map_cons, List.cons_append]

/-- A key leads to the entry that was placed last. -/
theorem find?_place (entry : α) (table : List α) (k : κ) :
    (place key entry table).find? (fun other => key other = k) =
      if key entry = k then some entry else table.find? fun other => key other = k := by
  induction table with
  | nil => by_cases h : key entry = k <;> simp [place, h]
  | cons first rest ih =>
    by_cases heq : key first = key entry
    · by_cases hk : key entry = k
      · simp [place, heq, hk]
      · simp [place, heq, hk]
    · rw [place, if_neg heq, List.find?_cons, List.find?_cons, ih]
      by_cases hk : key entry = k
      · have hfirst : key first ≠ k := hk ▸ heq
        simp [hfirst, hk]
      · simp only [if_neg hk]

/-- A table takes in one entry more by placing it. -/
theorem Tabulates.place (h : Tabulates key entries table) (entry : α) :
    Tabulates key (entries ++ [entry]) (place key entry table) where
  keys := by
    rw [map_key_place, List.map_append, List.map_singleton, eraseDups_concat, ← h.keys]
    by_cases hmem : key entry ∈ entries.map key
    · rw [if_pos hmem, if_pos (h.mem_keys_iff.mpr hmem)]
    · rw [if_neg hmem, if_neg (mt h.mem_keys_iff.mp hmem)]
  last k := by rw [find?_place, last?_concat, h.last]

end TypeAtlas.Keyed
