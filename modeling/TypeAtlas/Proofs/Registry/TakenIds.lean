import TypeAtlas.Proofs.Registry.Acceptance
import TypeAtlas.Value.View

/-!
# Ids that entries take

An entry may take any id of its table: one that an earlier entry has, and the one that stands
for an unresolved type. The first leaves a name behind that leads to another type, the second
resolves fields that have no type. Here is said exactly which loads are spared that.
-/

namespace TypeAtlas.Registry

def entries (bytes : Bytes) (options : LoadOptions) : Except LoadError (List TypeRecord) := do
  let payload ← reading (options.framing.payload bytes)
  if payload.isEmpty then return []
  else
    let ((_, records), _) ← readTable (.start payload options.copies)
    return records

/-- The records read that have kept their slots, in the order in which they were read. -/
def present (registry : Registry) (records : List TypeRecord) : List TypeRecord :=
  records.filter fun record => registry.typeById? record.id = some record

theorem exists_entries_of_load {bytes : Bytes} {options : LoadOptions} {tag : UInt64}
    {registry : Registry} (h : load bytes options tag = .ok registry) :
    ∃ count records, entries bytes options = .ok records ∧ count < UInt64.size ∧
      (∀ record ∈ records, record.id.index ≤ count) ∧
      registry = ofRecords count records tag := by
  obtain ⟨payload, hpayload, h⟩ := Outcome.bind_eq_ok.mp h
  cases payload with
  | nil =>
      cases h
      refine ⟨0, [], ?_, by decide, by simp, rfl⟩
      rw [entries, hpayload]
      rfl
  | cons byte rest =>
      obtain ⟨⟨⟨count, records⟩, next⟩, htable, h⟩ := Outcome.bind_eq_ok.mp h
      cases h
      obtain ⟨table, ⟨hfits, rfl, hids⟩, hmeans, -⟩ := readTable_eq_ok_iff.mp htable
      refine ⟨table.entries.length, records, ?_, hfits.1, ?_, rfl⟩
      · have hread : entries bytes options =
            (readTable (.start (byte :: rest) options.copies)).map fun read => read.1.2 := by
          rw [entries, hpayload]
          rfl
        rw [hread, htable]
        rfl
      · intro record hmem
        obtain ⟨entry, hentry, -, hid⟩ := exists_entry_of_describes hmeans hmem
        rw [hid]
        exact (hids entry hentry).1

theorem mem_types_iff {registry : Registry} {record : TypeRecord} :
    record ∈ registry.types ↔ ∃ id, registry.typeById? id = some record := by
  rw [types, List.mem_filterMap]
  constructor
  · intro h
    obtain ⟨slot, hslot, rfl⟩ := h
    obtain ⟨index, hindex⟩ := List.mem_iff_getElem?.mp hslot
    rw [Array.getElem?_toList] at hindex
    refine ⟨⟨index⟩, ?_⟩
    rw [typeById?, hindex]
    rfl
  · intro h
    obtain ⟨id, hid⟩ := h
    have hslot := Option.join_eq_some_iff.mp hid
    rw [← Array.getElem?_toList] at hslot
    exact ⟨some record, List.mem_of_getElem? hslot, rfl⟩

/-! ## Names -/

/-- A name is answered for as what is present says: by a record exactly when one present has
the name, and by the one of them that was read last. -/
structure AnswersFor (registry : Registry) (records : List TypeRecord) (name : String) :
    Prop where
  found : (∃ record, registry.typeByName? name = some record) ↔
    ∃ record ∈ registry.types, record.name.text = name
  named : ∀ record, registry.typeByName? name = some record → record.name.text = name
  latest : ∀ record, registry.typeByName? name = some record →
    lastWith? (·.name.text) (registry.present records) name = some record

/-- The last record of a name is also the last of its id, so no other has taken its slot. -/
def KeepsSlot (records : List TypeRecord) (name : String) : Prop :=
  ∀ record, lastWith? (·.name.text) records name = some record →
    lastWith? (·.id) records record.id = some record

/-- The first value with each of two properties, where each value has both, is one value. -/
theorem find?_eq_of_both {p q : α → Bool} {values : List α} {first second : α}
    (hfirst : values.find? p = some first) (hsecond : values.find? q = some second)
    (hq : q first) (hp : p second) : first = second := by
  induction values with
  | nil => cases hfirst
  | cons value rest ih =>
      by_cases hvalue : p value
      · have hhead : value = first := by simpa [hvalue] using hfirst
        subst hhead
        simpa [hq] using hsecond
      · by_cases hother : q value
        · have hhead : value = second := by simpa [hother] using hsecond
          subst hhead
          exact absurd hp hvalue
        · rw [List.find?_cons_of_neg hvalue] at hfirst
          rw [List.find?_cons_of_neg hother] at hsecond
          exact ih hfirst hsecond

theorem lastWith?_filter [DecidableEq α] {key : TypeRecord → α} {records : List TypeRecord}
    {value : α} {record : TypeRecord} (h : lastWith? key records value = some record)
    {p : TypeRecord → Bool} (hp : p record) :
    lastWith? key (records.filter p) value = some record := by
  rw [lastWith?, ← List.filter_reverse]
  rw [lastWith?] at h
  obtain ⟨hkey, before, after, hsplit, hbefore⟩ := List.find?_eq_some_iff_append.mp h
  apply List.find?_eq_some_iff_append.mpr
  refine ⟨hkey, before.filter p, after.filter p, ?_, ?_⟩
  · simp [hsplit, List.filter_append, hp]
  · intro other hmem
    exact hbefore other (List.mem_of_mem_filter hmem)

section
variable {count : Nat} {records : List TypeRecord}
  (hids : ∀ record ∈ records, record.id.index ≤ count) (tag : UInt64)
include hids

theorem mem_types_ofRecords {record : TypeRecord} :
    record ∈ (ofRecords count records tag).types ↔
      lastWith? (·.id) records record.id = some record := by
  rw [mem_types_iff]
  simp only [typeById?_ofRecords records count tag hids]
  constructor
  · intro h
    obtain ⟨id, hlast⟩ := h
    rwa [(lastWith?_eq_some hlast).2]
  · intro h
    exact ⟨record.id, h⟩

theorem answersFor_ofRecords_iff (name : String) :
    (ofRecords count records tag).AnswersFor records name ↔ KeepsSlot records name := by
  have hbyName := typeByName?_ofRecords records count tag hids name
  constructor
  · intro h record hlast
    have hid : ∃ found, lastWith? (·.id) records record.id = some found :=
      lastWith?_of_mem (lastWith?_eq_some hlast).1 rfl
    obtain ⟨holder, hholder⟩ := hid
    rw [hlast] at hbyName
    have hanswer : (ofRecords count records tag).typeByName? name = some holder :=
      hbyName.trans hholder
    have hsame : record = holder := by
      apply find?_eq_of_both hlast hholder
      · simp
      · simpa using h.named holder hanswer
    rw [hholder, hsame]
  · intro h
    cases hlast : lastWith? (·.name.text) records name with
    | none =>
        rw [hlast] at hbyName
        have hnone : (ofRecords count records tag).typeByName? name = none := hbyName
        refine ⟨?_, ?_, ?_⟩
        · simp only [hnone, reduceCtorEq, exists_false, false_iff]
          intro hnamed
          obtain ⟨record, hmem, hname⟩ := hnamed
          have hread := (lastWith?_eq_some ((mem_types_ofRecords hids tag).mp hmem)).1
          have hany : ∃ found, lastWith? (·.name.text) records name = some found :=
            lastWith?_of_mem hread hname
          obtain ⟨found, hfound⟩ := hany
          rw [hlast] at hfound
          cases hfound
        · simp [hnone]
        · simp [hnone]
    | some record =>
        have hslot := h record hlast
        rw [hlast] at hbyName
        have hanswer : (ofRecords count records tag).typeByName? name = some record :=
          hbyName.trans hslot
        have hname : record.name.text = name := (lastWith?_eq_some hlast).2
        have hpresent : (ofRecords count records tag).typeById? record.id = some record := by
          rw [typeById?_ofRecords records count tag hids]
          exact hslot
        refine ⟨?_, ?_, ?_⟩
        · exact ⟨fun _ => ⟨record, (mem_types_ofRecords hids tag).mpr hslot, hname⟩,
            fun _ => ⟨record, hanswer⟩⟩
        · intro found hfound
          cases hanswer.symm.trans hfound
          exact hname
        · intro found hfound
          cases hanswer.symm.trans hfound
          exact lastWith?_filter hlast (decide_eq_true hpresent)

end

/-- Look-up by name agrees with the records that are present exactly for the names whose last
record has kept its slot. -/
theorem answersFor_iff_keepsSlot {bytes : Bytes} {options : LoadOptions} {tag : UInt64}
    {registry : Registry} (h : load bytes options tag = .ok registry) :
    ∃ records, entries bytes options = .ok records ∧
      ∀ name, registry.AnswersFor records name ↔ KeepsSlot records name := by
  obtain ⟨count, records, hentries, -, hids, rfl⟩ := exists_entries_of_load h
  exact ⟨records, hentries, answersFor_ofRecords_iff hids tag⟩

/-- Two base types, `a` and then `b`, with one id. -/
def renamed : Bytes :=
  TypeTable.toBytes .host ⟨[⟨1, 58, 4, .base⟩, ⟨1, 60, 8, .base⟩]⟩ ++
    (Bytes.ofString "a" ++ [0]) ++ (Bytes.ofString "b" ++ [0])

def renamedRecords : List TypeRecord :=
  [.withMembers ⟨1⟩ ⟨"a", false⟩ 4 .base 0, .withMembers ⟨1⟩ ⟨"b", false⟩ 8 .base 0]

theorem answersFor_iff_keepsSlot_renamed :
    load renamed ⟨false, .raw⟩ 0 = .ok (ofRecords 2 renamedRecords 0) ∧
    (ofRecords 2 renamedRecords 0).AnswersFor renamedRecords "b" ∧
    ¬ (ofRecords 2 renamedRecords 0).AnswersFor renamedRecords "a" := by
  have hload : load renamed ⟨false, .raw⟩ 0 = .ok (ofRecords 2 renamedRecords 0) := by
    decide +kernel
  obtain ⟨records, hentries, hiff⟩ := answersFor_iff_keepsSlot hload
  have hrecords : entries renamed ⟨false, .raw⟩ = .ok renamedRecords := by decide +kernel
  cases hrecords.symm.trans hentries
  refine ⟨hload, (hiff "b").mpr ?_, ?_⟩
  · intro record hlast
    cases hlast
    rfl
  · intro hanswers
    have hkept : lastWith? (·.id) renamedRecords ⟨1⟩ =
        some (.withMembers ⟨1⟩ ⟨"a", false⟩ 4 .base 0) := (hiff "a").mp hanswers _ rfl
    exact absurd hkept (by decide)

/-- The name `a` leads to the type `b`, although no type present is named `a`. -/
theorem typeByName?_renamed :
    ∃ registry, load renamed ⟨false, .raw⟩ 0 = .ok registry ∧
      (registry.typeByName? "a").map (·.name.text) = some "b" ∧
      registry.types.map (·.name.text) = ["b"] :=
  ⟨ofRecords 2 renamedRecords 0, by decide +kernel, by decide +kernel, by decide +kernel⟩

/-! ## The unresolved id -/

/-- Nothing stands under the unresolved id, so fields declared with it have no type, and no
extent unless they are pointers. -/
structure LeavesUnresolved (registry : Registry) : Prop where
  vacant : registry.typeById? .unresolved = none
  typeless : ∀ field : Field, field.typeId = .unresolved → registry.typeOfField? field = none
  sizeless : ∀ field : Field, field.typeId = .unresolved → field.isPointer = false →
    registry.extent? field = some 0

theorem leavesUnresolved_of_vacant {registry : Registry}
    (h : registry.typeById? .unresolved = none) : registry.LeavesUnresolved := by
  have htypeless : ∀ field : Field, field.typeId = .unresolved →
      registry.typeOfField? field = none := by
    intro field hfield
    rw [typeOfField?, hfield]
    exact h
  refine ⟨h, htypeless, ?_⟩
  intro field hfield hpointer
  have hsize : 0 < UInt64.size := by decide
  simp [extent?, hpointer, htypeless field hfield, hsize]

theorem lastWith?_eq_none_iff [DecidableEq α] {key : TypeRecord → α} {records : List TypeRecord}
    {value : α} : lastWith? key records value = none ↔ ∀ record ∈ records, key record ≠ value := by
  simp [lastWith?]

/-- The unresolved id stays unresolved exactly when no entry is read under it. -/
theorem leavesUnresolved_iff {bytes : Bytes} {options : LoadOptions} {tag : UInt64}
    {registry : Registry} (h : load bytes options tag = .ok registry) :
    ∃ records, entries bytes options = .ok records ∧
      (registry.LeavesUnresolved ↔ ∀ record ∈ records, record.id ≠ .unresolved) := by
  obtain ⟨count, records, hentries, -, hids, rfl⟩ := exists_entries_of_load h
  have hslot := typeById?_ofRecords records count tag hids .unresolved
  refine ⟨records, hentries, ?_⟩
  rw [← lastWith?_eq_none_iff, ← hslot]
  exact ⟨LeavesUnresolved.vacant, leavesUnresolved_of_vacant⟩

/-- A base type under the unresolved id, and a struct with a field of no type. -/
def resolved : Bytes :=
  TypeTable.toBytes .host
      ⟨[⟨0, 103, 4, .base⟩, ⟨1, 105, 8, .struct [⟨105, 0, 0, 0, 0, 0⟩]⟩]⟩ ++
    (Bytes.ofString "a" ++ [0]) ++ (Bytes.ofString "b" ++ [0])

def resolvedField : Field := ⟨⟨"b", false⟩, .unresolved, 0, 0, 0, false⟩

def resolvedRecords : List TypeRecord :=
  [.withMembers ⟨0⟩ ⟨"a", false⟩ 4 .base 0,
    (TypeRecord.withMembers ⟨1⟩ ⟨"b", false⟩ 8 .struct 1).pushFields [resolvedField]]

theorem leavesUnresolved_iff_resolved :
    load resolved ⟨false, .raw⟩ 0 = .ok (ofRecords 2 resolvedRecords 0) ∧
    ¬ (ofRecords 2 resolvedRecords 0).LeavesUnresolved := by
  have hload : load resolved ⟨false, .raw⟩ 0 = .ok (ofRecords 2 resolvedRecords 0) := by
    decide +kernel
  obtain ⟨records, hentries, hiff⟩ := leavesUnresolved_iff hload
  have hrecords : entries resolved ⟨false, .raw⟩ = .ok resolvedRecords := by decide +kernel
  cases hrecords.symm.trans hentries
  refine ⟨hload, ?_⟩
  intro hleaves
  exact hiff.mp hleaves _ List.mem_cons_self rfl

/-- The field of no type in `resolved` resolves to the type `a`, and is four bytes long. -/
theorem typeOfField?_resolved :
    ∃ registry, load resolved ⟨false, .raw⟩ 0 = .ok registry ∧
      resolvedField ∈ registry.types.flatMap (·.fields) ∧
      (registry.typeById? .unresolved).map (·.name.text) = some "a" ∧
      (registry.typeOfField? resolvedField).map (·.name.text) = some "a" ∧
      registry.extent? resolvedField = some 4 :=
  ⟨ofRecords 2 resolvedRecords 0, by decide +kernel, by decide +kernel, by decide +kernel,
    by decide +kernel, by decide +kernel⟩

end TypeAtlas.Registry
