import TypeAtlas.Proofs.NameIndex.Insertion
import TypeAtlas.Registry.Basic

/-!
# Registries built from records

Records are put into a registry one after the other. Of several records with one id the last
is found under it, and a name leads to what stands at the id of the last record that has it.
-/

namespace TypeAtlas.Registry

def lastWith? [DecidableEq α] (key : TypeRecord → α) (records : List TypeRecord) (value : α) :
    Option TypeRecord :=
  records.reverse.find? fun record => key record = value

theorem lastWith?_cons [DecidableEq α] (key : TypeRecord → α) (record : TypeRecord)
    (rest : List TypeRecord) (value : α) :
    lastWith? key (record :: rest) value =
      (lastWith? key rest value).or (if key record = value then some record else none) := by
  rw [lastWith?, List.reverse_cons, List.find?_append, lastWith?]
  by_cases h : key record = value <;> simp [h]

theorem lastWith?_eq_some [DecidableEq α] {key : TypeRecord → α} {records : List TypeRecord}
    {value : α} {record : TypeRecord} (h : lastWith? key records value = some record) :
    record ∈ records ∧ key record = value := by
  have hkey := List.find?_some h
  exact ⟨List.mem_reverse.mp (List.mem_of_find?_eq_some h), of_decide_eq_true hkey⟩

theorem lastWith?_of_mem [DecidableEq α] {key : TypeRecord → α} {records : List TypeRecord}
    {value : α} {record : TypeRecord} (hmem : record ∈ records) (hkey : key record = value) :
    ∃ found, lastWith? key records value = some found := by
  apply Option.isSome_iff_exists.mp
  rw [lastWith?, List.find?_isSome]
  exact ⟨record, List.mem_reverse.mpr hmem, decide_eq_true hkey⟩

/-! ## Records put one after the other -/

variable (registry : Registry) (records : List TypeRecord)

theorem idCapacity_foldl_put : (records.foldl put registry).idCapacity = registry.idCapacity := by
  induction records generalizing registry with
  | nil => rfl
  | cons record rest ih => rw [List.foldl_cons, ih, idCapacity_put]

theorem typeById?_foldl_put (hids : ∀ record ∈ records, record.id.index < registry.idCapacity)
    (id : TypeId) :
    (records.foldl put registry).typeById? id =
      (lastWith? TypeRecord.id records id).or (registry.typeById? id) := by
  induction records generalizing registry with
  | nil => rfl
  | cons record rest ih =>
      have hrest : ∀ later ∈ rest, later.id.index < (registry.put record).idCapacity := by
        intro later hmem
        rw [idCapacity_put]
        exact hids later (List.mem_cons_of_mem record hmem)
      have hin := hids record List.mem_cons_self
      rw [List.foldl_cons, ih (registry.put record) hrest, typeById?_put, lastWith?_cons,
        Option.or_assoc]
      by_cases heq : record.id = id
      · subst heq
        simp [hin]
      · have hne : record.id.index ≠ id.index := fun h => heq (congrArg TypeId.mk h)
        simp [heq, hne]

theorem sound_foldl_put (h : registry.names.Sound) : (records.foldl put registry).names.Sound := by
  induction records generalizing registry with
  | nil => exact h
  | cons record rest ih => exact ih (registry.put record) (h.insert record.name record.id.index)

theorem get?_foldl_put (h : registry.names.Sound) (name : String) :
    (records.foldl put registry).names.get? name =
      ((lastWith? (·.name.text) records name).map fun record => record.id.index).or
        (registry.names.get? name) := by
  induction records generalizing registry with
  | nil => rfl
  | cons record rest ih =>
      have hput : (registry.put record).names.get? name =
          if record.name.text = name then some record.id.index else registry.names.get? name :=
        h.get?_insert record.name record.id.index name
      rw [List.foldl_cons, ih (registry.put record) (h.insert record.name record.id.index), hput,
        lastWith?_cons]
      cases lastWith? (·.name.text) rest name with
      | some later => simp
      | none => by_cases heq : record.name.text = name <;> simp [heq]

/-! ## Whole registries -/

variable (count : Nat) (tag : UInt64)

theorem typeById?_withCount (id : TypeId) : (withCount count tag).typeById? id = none := by
  simp only [typeById?, withCount, Array.getElem?_replicate]
  split <;> rfl

theorem get?_withCount (name : String) : (withCount count tag).names.get? name = none := by
  have hsound : (withCount count tag).names.Sound := NameIndex.sound_withCapacity (2 * count)
  rw [hsound.get?_eq_lookup]
  rfl

@[simp] theorem idCapacity_ofRecords : (ofRecords count records tag).idCapacity = count + 1 := by
  rw [ofRecords, idCapacity_foldl_put]
  simp [idCapacity, withCount]

theorem typeById?_ofRecords (hids : ∀ record ∈ records, record.id.index ≤ count) (id : TypeId) :
    (ofRecords count records tag).typeById? id = lastWith? TypeRecord.id records id := by
  have hin : ∀ record ∈ records, record.id.index < (withCount count tag).idCapacity := by
    intro record hmem
    have hle := hids record hmem
    simp only [idCapacity, withCount, Array.size_replicate]
    omega
  rw [ofRecords, typeById?_foldl_put _ records hin, typeById?_withCount, Option.or_none]

theorem get?_ofRecords (name : String) :
    (ofRecords count records tag).names.get? name =
      (lastWith? (·.name.text) records name).map fun record => record.id.index := by
  have hsound := NameIndex.sound_withCapacity (2 * count)
  rw [ofRecords, get?_foldl_put (withCount count tag) records hsound, get?_withCount,
    Option.or_none]

/-- A name leads to its last record's id, and so to what is found there. -/
theorem typeByName?_ofRecords (hids : ∀ record ∈ records, record.id.index ≤ count)
    (name : String) :
    (ofRecords count records tag).typeByName? name =
      (lastWith? (·.name.text) records name).bind fun record => lastWith? TypeRecord.id records record.id := by
  have hname := get?_ofRecords records count tag name
  rw [typeByName?, hname]
  cases lastWith? (·.name.text) records name with
  | none => rfl
  | some record => exact typeById?_ofRecords records count tag hids record.id

end TypeAtlas.Registry
