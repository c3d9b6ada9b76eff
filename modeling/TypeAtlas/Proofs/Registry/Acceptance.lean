import TypeAtlas.Blob.TypeTable.Reading
import TypeAtlas.Proofs.Registry.Building
import TypeAtlas.Proofs.Registry.Decoding

/-!
# Which payloads are accepted

A bare payload is accepted exactly when it is empty or a type table stands at its front, read
entry by entry with no look at how many bytes are left, whose ids lie in the table and whose
names stand in the payload. The registry then holds what the entries describe.
-/

namespace TypeAtlas

/-- A table is read from the front of a payload, and everything it points to is there. -/
structure TypeTable.StandsIn (table : TypeTable) (payload : Bytes) : Prop where
  reads : ∃ behind, TypeTable.read? .host payload = some (table, behind)
  ids : ∀ entry ∈ table.entries, entry.id ≤ table.entries.length
  typeIds : ∀ entry ∈ table.entries, ∀ id ∈ entry.shape.typeIds, id ≤ table.entries.length
  names : ∀ offset ∈ table.nameOffsets, payload.HasText offset

/-- What stands at the front of a payload can be read from a cursor there. -/
theorem TypeTable.reads_iff_passes {table : TypeTable} {payload : Bytes} (copies : Bool) :
    (∃ behind, TypeTable.read? .host payload = some (table, behind)) ↔
      table.Fits .host ∧ ∃ next, (Cursor.start payload copies).Passes (table.toBytes .host) next := by
  have hrest : (Cursor.start payload copies).rest = payload := rfl
  constructor
  · intro h
    obtain ⟨behind, hread⟩ := h
    obtain ⟨hfits, hpayload⟩ := (TypeTable.reads .host payload table behind).mp hread
    exact ⟨hfits, _, ⟨behind, by rw [hrest, hpayload]⟩, rfl⟩
  · intro h
    obtain ⟨hfits, next, ⟨behind, hpayload⟩, -⟩ := h
    rw [hrest] at hpayload
    exact ⟨behind, (TypeTable.reads .host payload table behind).mpr ⟨hfits, hpayload.symm⟩⟩

namespace TypeTable.StandsIn

variable {table : TypeTable} {payload : Bytes}

theorem payload_ne_nil (h : table.StandsIn payload) : payload ≠ [] := by
  intro hempty
  subst hempty
  obtain ⟨behind, hread⟩ := h.reads
  cases hread

theorem exists_describes (h : table.StandsIn payload) (copies : Bool) :
    ∃ records, List.Forall₂ (TableEntry.Describes payload copies) table.entries records := by
  obtain ⟨hfits, -⟩ := (reads_iff_passes copies).mp h.reads
  apply exists_forall₂
  intro entry hmem
  have hnames : ∀ offset ∈ entry.name :: entry.shape.nameOffsets, payload.HasText offset := by
    intro offset hoffset
    exact h.names offset (List.mem_flatMap.mpr ⟨entry, hmem, hoffset⟩)
  exact TableEntry.exists_describes (hnames _ List.mem_cons_self)
    (fun offset hoffset => hnames offset (List.mem_cons_of_mem _ hoffset)) (hfits.2 entry hmem)
    copies

end TypeTable.StandsIn

theorem hasText_of_describes {table : TypeTable} {payload : Bytes} {copies : Bool}
    {records : List TypeRecord}
    (h : List.Forall₂ (TableEntry.Describes payload copies) table.entries records) :
    ∀ offset ∈ table.nameOffsets, payload.HasText offset := by
  intro offset hoffset
  obtain ⟨entry, hmem, hin⟩ := List.mem_flatMap.mp hoffset
  obtain ⟨record, -, hdescribes⟩ := exists_of_forall₂ h hmem
  rcases List.mem_cons.mp hin with rfl | hlater
  · exact ⟨_, hdescribes.name⟩
  · exact hdescribes.members.hasText offset hlater

/-- Records have the ids of their entries. -/
theorem exists_entry_of_describes {payload : Bytes} {copies : Bool} {entries : List TableEntry}
    {records : List TypeRecord}
    (h : List.Forall₂ (TableEntry.Describes payload copies) entries records)
    {record : TypeRecord} (hmem : record ∈ records) :
    ∃ entry ∈ entries, entry.Describes payload copies record ∧ record.id = ⟨entry.id⟩ := by
  obtain ⟨entry, hentry, hdescribes⟩ := exists_of_forall₂ h.flip hmem
  refine ⟨entry, hentry, hdescribes, ?_⟩
  rw [hdescribes.whole, TypeRecord.id_ofMembers]

namespace Registry

theorem load_raw_of_ne_nil {payload : Bytes} (h : payload ≠ []) (copies : Bool) (tag : UInt64) :
    load payload ⟨copies, .raw⟩ tag = (do
      let ((count, records), _) ← readTable (.start payload copies)
      return ofRecords count records tag) := by
  cases payload with
  | nil => exact absurd rfl h
  | cons byte rest => rfl

/-- What is read from the front of a payload is what a table there describes. -/
theorem exists_standsIn_of_readTable {payload : Bytes} {copies : Bool} {count : Nat}
    {records : List TypeRecord} {next : Cursor}
    (h : readTable (.start payload copies) = .ok ((count, records), next)) :
    ∃ table : TypeTable, table.StandsIn payload ∧
      List.Forall₂ (TableEntry.Describes payload copies) table.entries records ∧
      count = table.entries.length := by
  obtain ⟨table, ⟨hfits, hcount, hids⟩, hmeans, hpass⟩ := readTable_eq_ok_iff.mp h
  refine ⟨table, ⟨?_, ?_, ?_, ?_⟩, hmeans, hcount.symm⟩
  · exact (TypeTable.reads_iff_passes copies).mpr ⟨hfits, next, hpass⟩
  · intro entry hmem
    rw [hcount]
    exact (hids entry hmem).1
  · intro entry hmem
    rw [hcount]
    exact (hids entry hmem).2
  · exact hasText_of_describes hmeans

theorem load_raw_eq_ok_iff {payload : Bytes} {copies : Bool} {tag : UInt64}
    {registry : Registry} :
    load payload ⟨copies, .raw⟩ tag = .ok registry ↔
      (payload = [] ∧ registry = empty tag) ∨
      ∃ table records, TypeTable.StandsIn table payload ∧
        List.Forall₂ (TableEntry.Describes payload copies) table.entries records ∧
        registry = ofRecords table.entries.length records tag := by
  cases payload with
  | nil =>
      have hload : load [] ⟨copies, .raw⟩ tag = .ok (empty tag) := rfl
      rw [hload]
      constructor
      · intro h
        cases h
        exact .inl ⟨rfl, rfl⟩
      · intro h
        rcases h with ⟨-, rfl⟩ | ⟨table, records, hstands, -⟩
        · rfl
        · exact absurd rfl hstands.payload_ne_nil
  | cons byte rest =>
      rw [load_raw_of_ne_nil (List.cons_ne_nil byte rest)]
      constructor
      · intro h
        obtain ⟨⟨⟨count, records⟩, next⟩, htable, h⟩ := Outcome.bind_eq_ok.mp h
        cases Outcome.pure_eq_ok.mp h
        obtain ⟨table, hstands, hmeans, rfl⟩ := exists_standsIn_of_readTable htable
        exact .inr ⟨table, records, hstands, hmeans, rfl⟩
      · intro h
        rcases h with ⟨hempty, -⟩ | ⟨table, records, hstands, hmeans, rfl⟩
        · cases hempty
        · obtain ⟨hfits, next, hpass⟩ := (TypeTable.reads_iff_passes copies).mp hstands.reads
          have hids : ∀ entry ∈ table.entries, entry.id ≤ table.entries.length ∧
              ∀ typeId ∈ entry.shape.typeIds, typeId ≤ table.entries.length :=
            fun entry hmem => ⟨hstands.ids entry hmem, hstands.typeIds entry hmem⟩
          have htable : readTable (.start (byte :: rest) copies) =
              .ok ((table.entries.length, records), next) :=
            readTable_eq_ok_iff.mpr ⟨table, ⟨hfits, rfl, hids⟩, hmeans, hpass⟩
          rw [htable]
          rfl

theorem load_of_describes {table : TypeTable} {payload : Bytes} {copies : Bool}
    {records : List TypeRecord} (hstands : table.StandsIn payload)
    (hmeans : List.Forall₂ (TableEntry.Describes payload copies) table.entries records)
    (tag : UInt64) :
    load payload ⟨copies, .raw⟩ tag = .ok (ofRecords table.entries.length records tag) :=
  load_raw_eq_ok_iff.mpr (.inr ⟨table, records, hstands, hmeans, rfl⟩)

/-- Once the framing is off, a payload loads as it would bare. -/
theorem load_of_payload {framing : Framing} {bytes payload : Bytes}
    (h : framing.payload bytes = .ok payload) (copies : Bool) (tag : UInt64) :
    load bytes ⟨copies, framing⟩ tag = load payload ⟨copies, .raw⟩ tag := by
  simp only [load, h]
  rfl

theorem load_of_payload_error {framing : Framing} {bytes : Bytes} {fault : BlobError}
    (h : framing.payload bytes = .error fault) (copies : Bool) (tag : UInt64) :
    load bytes ⟨copies, framing⟩ tag = .error (.blob fault) := by
  simp only [load, h]
  rfl

/-- The checks of counts against the bytes that are left never refuse a payload: what is
accepted is exactly what reads entry by entry. -/
theorem load_raw_accepts (payload : Bytes) (copies : Bool) (tag : UInt64) :
    ((∃ registry, load payload ⟨copies, .raw⟩ tag = .ok registry) ↔
      payload = [] ∨ ∃ table, TypeTable.StandsIn table payload) ∧
    ∀ registry, load payload ⟨copies, .raw⟩ tag = .ok registry →
      (payload = [] ∧ registry = empty tag) ∨
      ∃ table records, TypeTable.StandsIn table payload ∧
        List.Forall₂ (TableEntry.Describes payload copies) table.entries records ∧
        registry.idCapacity = table.entries.length + 1 ∧
        (∀ id, registry.typeById? id = lastWith? (·.id) records id) ∧
        ∀ name, registry.typeByName? name =
          (lastWith? (·.name.text) records name).bind fun record =>
            registry.typeById? record.id := by
  constructor
  · constructor
    · intro h
      obtain ⟨registry, hload⟩ := h
      rcases load_raw_eq_ok_iff.mp hload with ⟨hempty, -⟩ | ⟨table, -, hstands, -⟩
      · exact .inl hempty
      · exact .inr ⟨table, hstands⟩
    · intro h
      rcases h with hempty | ⟨table, hstands⟩
      · exact ⟨empty tag, load_raw_eq_ok_iff.mpr (.inl ⟨hempty, rfl⟩)⟩
      · obtain ⟨records, hmeans⟩ := hstands.exists_describes copies
        exact ⟨_, load_raw_eq_ok_iff.mpr (.inr ⟨table, records, hstands, hmeans, rfl⟩)⟩
  · intro registry hload
    rcases load_raw_eq_ok_iff.mp hload with hempty | ⟨table, records, hstands, hmeans, rfl⟩
    · exact .inl hempty
    · have hids : ∀ record ∈ records, record.id.index ≤ table.entries.length := by
        intro record hmem
        obtain ⟨entry, hentry, -, hid⟩ := exists_entry_of_describes hmeans hmem
        rw [hid]
        exact hstands.ids entry hentry
      refine .inr ⟨table, records, hstands, hmeans, idCapacity_ofRecords .., ?_, ?_⟩
      · intro id
        exact typeById?_ofRecords records table.entries.length tag hids id
      · intro name
        have hname := typeByName?_ofRecords records table.entries.length tag hids name
        simp only [typeById?_ofRecords records table.entries.length tag hids]
        exact hname

end Registry

end TypeAtlas
