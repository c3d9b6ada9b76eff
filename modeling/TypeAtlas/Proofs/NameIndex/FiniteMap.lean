import TypeAtlas.Proofs.Keyed
import TypeAtlas.Proofs.NameIndex.Insertion

/-!
# Name indexes as maps

What an index answers after any insertions, with names detached at any time in between: under
each name the last number inserted for it, and the names in the order in which they first
came. The number of buckets and the values of the hash have no part in it.
-/

namespace TypeAtlas.NameIndex

inductive Action where
  | insert (name : Name) (id : Nat)
  | detach
  deriving DecidableEq, Repr

def act (table : NameIndex) : Action → NameIndex
  | .insert name id => table.insert name id
  | .detach => table.detach

def run (table : NameIndex) (actions : List Action) : NameIndex := actions.foldl act table

def Action.inserted? : Action → Option (String × Nat)
  | .insert name id => some (name.text, id)
  | .detach => none

def insertions (actions : List Action) : List (String × Nat) :=
  actions.filterMap Action.inserted?

/-! ## One action -/

theorem keys_detach (table : NameIndex) : table.detach.keys = table.keys := by
  simp [keys, detach]

theorem Sound.detach {table : NameIndex} (h : table.Sound) : table.detach.Sound where
  buckets_pos := h.buckets_pos
  linked bucket hbucket := by
    have hsize : table.detach.buckets.size = table.buckets.size := rfl
    rw [residents_congr hsize (keys_detach table)]
    apply (h.linked bucket hbucket).congr
    intro position _
    simp [NameIndex.detach, Function.comp_def]
  distinct := by
    rw [keys_detach]
    exact h.distinct

/-- An insertion puts the number of a name in the place of the one that the name had. -/
theorem Sound.entries_insert {table : NameIndex} (h : table.Sound) (name : Name) (id : Nat) :
    (table.insert name id).entries = Keyed.place Prod.fst (name.text, id) table.entries := by
  have hkeys := map_fst_entries table
  by_cases hmem : name.text ∈ table.keys
  · have hnodup : (table.entries.map Prod.fst).Nodup := hkeys ▸ h.distinct
    rw [h.entries_insert_of_mem id hmem, Keyed.place_of_mem hnodup (hkeys ▸ hmem)]
    apply List.map_congr_left
    rintro ⟨first, number⟩ -
    by_cases heq : first = name.text <;> simp [heq]
  · rw [h.entries_insert_of_not_mem id hmem, Keyed.place_of_not_mem (hkeys ▸ hmem)]

/-! ## Runs -/

/-- A sound index that lists the last number of every name inserted. -/
structure Maps (inserted : List (String × Nat)) (table : NameIndex) : Prop where
  sound : table.Sound
  entries : Keyed.Tabulates Prod.fst inserted table.entries

theorem maps_withCapacity (capacity : Nat) : Maps [] (withCapacity capacity) where
  sound := sound_withCapacity capacity
  entries := Keyed.tabulates_nil

theorem Maps.act {inserted : List (String × Nat)} {table : NameIndex} (h : Maps inserted table)
    (action : Action) :
    Maps (inserted ++ action.inserted?.toList) (table.act action) := by
  cases action with
  | insert name id =>
    refine ⟨h.sound.insert name id, ?_⟩
    have hplaced := h.entries.place (name.text, id)
    rwa [← h.sound.entries_insert] at hplaced
  | detach =>
    refine ⟨h.sound.detach, ?_⟩
    simpa [NameIndex.act, Action.inserted?] using h.entries

theorem insertions_cons (action : Action) (rest : List Action) :
    insertions (action :: rest) = action.inserted?.toList ++ insertions rest := by
  cases action <;> rfl

theorem Maps.run {inserted : List (String × Nat)} {table : NameIndex} (h : Maps inserted table)
    (actions : List Action) : Maps (inserted ++ insertions actions) (table.run actions) := by
  induction actions generalizing inserted table with
  | nil =>
    rw [insertions, List.filterMap_nil, List.append_nil]
    exact h
  | cons action rest ih =>
    rw [insertions_cons, ← List.append_assoc]
    exact ih (h.act action)

theorem Maps.get? {inserted : List (String × Nat)} {table : NameIndex} (h : Maps inserted table)
    (text : String) :
    table.get? text = (Keyed.last? Prod.fst inserted text).map Prod.snd := by
  rw [h.sound.get?_eq_lookup, Keyed.lookup_eq_find?, h.entries.last]

theorem Maps.get?_eq_some_iff {inserted : List (String × Nat)} {table : NameIndex}
    (h : Maps inserted table) {text : String} {id : Nat} :
    table.get? text = some id ↔ ∃ before after, inserted = before ++ (text, id) :: after ∧
      text ∉ after.map Prod.fst := by
  have hbehind : ∀ after : List (String × Nat),
      (∀ later ∈ after, later.1 ≠ text) ↔ text ∉ after.map Prod.fst := by
    intro after
    simp only [List.mem_map, not_exists, not_and]
  rw [h.get?, Option.map_eq_some_iff]
  constructor
  · rintro ⟨⟨name, number⟩, hlast, rfl⟩
    obtain ⟨rfl, before, after, heq, hafter⟩ := Keyed.last?_eq_some_iff.mp hlast
    exact ⟨before, after, heq, (hbehind after).mp hafter⟩
  · rintro ⟨before, after, heq, hafter⟩
    exact ⟨(text, id),
      Keyed.last?_eq_some_iff.mpr ⟨rfl, before, after, heq, (hbehind after).mpr hafter⟩, rfl⟩

theorem Maps.size {inserted : List (String × Nat)} {table : NameIndex} (h : Maps inserted table) :
    table.size = (inserted.map Prod.fst).eraseDups.length := by
  rw [← h.entries.keys]
  simp [NameIndex.size, NameIndex.entries]

/-- An index answers as a finite map does, whatever its capacity, and so do any two of them
alike. -/
theorem run_eq_map (capacity : Nat) (actions : List Action) :
    let table := (withCapacity capacity).run actions
    let inserted := insertions actions
    (∀ text id, table.get? text = some id ↔ ∃ before after,
      inserted = before ++ (text, id) :: after ∧ text ∉ after.map Prod.fst) ∧
    (∀ text, table.get? text = none ↔ text ∉ inserted.map Prod.fst) ∧
    table.size = (inserted.map Prod.fst).eraseDups.length ∧
    table.entries.map Prod.fst = (inserted.map Prod.fst).eraseDups ∧
    (∀ entry ∈ table.entries, table.get? entry.1 = some entry.2) ∧
    ∀ other, let twin := (withCapacity other).run actions
      twin.get? = table.get? ∧ twin.size = table.size ∧ twin.entries = table.entries := by
  intro table inserted
  have hmaps : ∀ capacity, Maps inserted ((withCapacity capacity).run actions) := by
    intro capacity
    simpa using (maps_withCapacity capacity).run actions
  have h : Maps inserted table := hmaps capacity
  refine ⟨fun _ _ => h.get?_eq_some_iff, ?_, h.size, h.entries.keys, ?_, ?_⟩
  · intro text
    rw [h.get?, Option.map_eq_none_iff, Keyed.last?_eq_none_iff]
  · intro entry hmem
    rw [h.get?, h.entries.last?_of_mem hmem, Option.map_some]
  · intro other
    refine ⟨?_, ?_, (hmaps other).entries.unique h.entries⟩
    · funext text
      rw [(hmaps other).get?, h.get?]
    · rw [(hmaps other).size, h.size]

end TypeAtlas.NameIndex
