import TypeAtlas.Proofs.Registry.Acceptance
import TypeAtlas.Proofs.Registry.SafeLoad

/-!
# Safety of loading

Whatever bytes are loaded, and however the load ends, it makes no demand on memory that is not
met. A registry that it yields is well formed: ids, names and the types of fields lead to where
they should, and every record is full of members of its own sort.
-/

namespace TypeAtlas

/-! ## Well-formed registries -/

def Members.Suits (kind : TypeKind) (members : Members) : Prop :=
  match kind with
  | .base => members = .none
  | .struct | .union => ∃ fields, members = .fields fields
  | .enum => ∃ enumerators, members = .enumerators enumerators

structure TypeRecord.WellFormed (idCapacity : Nat) (record : TypeRecord) : Prop where
  typeIds : ∀ field ∈ record.fields, field.typeId.index < idCapacity
  full : record.members.size = record.capacity
  members : record.members.Suits record.kind

structure Registry.WellFormed (registry : Registry) : Prop where
  ids : ∀ id record, registry.typeById? id = some record → record.id = id
  records : ∀ id record, registry.typeById? id = some record →
    record.WellFormed registry.idCapacity
  names : ∀ entry ∈ registry.names.entries, (registry.typeById? ⟨entry.2⟩).isSome

theorem TableShape.Describes.suits {payload : Bytes} {copies : Bool} {shape : TableShape}
    {members : Members} (h : shape.Describes payload copies members) :
    members.Suits shape.kind := by
  cases h with
  | base => rfl
  | struct _ | union _ => exact ⟨_, rfl⟩
  | enum _ => exact ⟨_, rfl⟩

theorem TableEntry.Describes.wellFormed {payload : Bytes} {copies : Bool} {entry : TableEntry}
    {record : TypeRecord} (h : entry.Describes payload copies record) {count : Nat}
    (hids : ∀ id ∈ entry.shape.typeIds, id ≤ count) : record.WellFormed (count + 1) := by
  have hfields : ∀ (listed : List TableField) (fields : List Field),
      List.Forall₂ (TableField.Describes payload copies) listed fields →
      (∀ id ∈ listed.map (·.typeId), id ≤ count) →
      ∀ field ∈ fields, field.typeId.index < count + 1 := by
    intro listed fields hmeans hle field hmem
    obtain ⟨origin, horigin, hdescribes⟩ := exists_of_forall₂ hmeans.flip hmem
    have htype : field.typeId = ⟨origin.typeId⟩ := TableField.Describes.typeId hdescribes
    rw [htype]
    exact Nat.lt_succ_of_le (hle _ (List.mem_map_of_mem horigin))
  obtain ⟨id, name, size, shape⟩ := entry
  have hmembers := h.members
  rw [h.whole]
  generalize record.members = members at hmembers
  refine ⟨?_, ?_, hmembers.suits⟩
  · cases hmembers with
    | base =>
        intro field hmem
        cases hmem
    | struct hmeans => exact hfields _ _ hmeans hids
    | union hmeans => exact hfields _ _ hmeans hids
    | enum _ =>
        intro field hmem
        cases hmem
  · cases hmembers <;> rfl

namespace Registry

theorem wellFormed_empty (tag : UInt64) : (empty tag).WellFormed := by
  have hvacant : ∀ id, (empty tag).typeById? id = none := by
    intro id
    cases h : id.index <;> simp [typeById?, empty, h]
  refine ⟨?_, ?_, ?_⟩
  · intro id record h
    rw [hvacant] at h
    cases h
  · intro id record h
    rw [hvacant] at h
    cases h
  · intro entry hmem
    cases hmem

theorem wellFormed_ofRecords {count : Nat} {records : List TypeRecord}
    (hids : ∀ record ∈ records, record.id.index ≤ count)
    (hrecords : ∀ record ∈ records, record.WellFormed (count + 1)) (tag : UInt64) :
    (ofRecords count records tag).WellFormed := by
  have hbyId := typeById?_ofRecords records count tag hids
  refine ⟨?_, ?_, ?_⟩
  · intro id record h
    rw [hbyId] at h
    exact (lastWith?_eq_some h).2
  · intro id record h
    rw [hbyId] at h
    rw [idCapacity_ofRecords]
    exact hrecords record (lastWith?_eq_some h).1
  · intro entry hmem
    obtain ⟨name, id⟩ := entry
    have hsound : (ofRecords count records tag).names.Sound :=
      sound_foldl_put (withCount count tag) records (NameIndex.sound_withCapacity _)
    have hdistinct : ((ofRecords count records tag).names.entries.map Prod.fst).Nodup := by
      rw [NameIndex.map_fst_entries]
      exact hsound.distinct
    have hfound := NameIndex.lookup_of_mem hdistinct hmem
    rw [← hsound.get?_eq_lookup, get?_ofRecords] at hfound
    obtain ⟨record, hlast, rfl⟩ := Option.map_eq_some_iff.mp hfound
    -- A later record under another name may have taken the slot, but the slot is not vacant.
    have hpresent : ∃ found, lastWith? (·.id) records record.id = some found :=
      lastWith?_of_mem (lastWith?_eq_some hlast).1 rfl
    obtain ⟨found, hthere⟩ := hpresent
    rw [hbyId, hthere]
    rfl

theorem wellFormed_of_load {bytes : Bytes} {options : LoadOptions} {tag : UInt64}
    {registry : Registry} (h : load bytes options tag = .ok registry) : registry.WellFormed := by
  obtain ⟨copies, framing⟩ := options
  have hload := h
  obtain ⟨payload, hpayload, -⟩ := Outcome.bind_eq_ok.mp h
  rw [load_of_payload (reading_eq_ok_iff.mp hpayload)] at hload
  rcases load_raw_eq_ok_iff.mp hload with ⟨-, rfl⟩ | ⟨table, records, hstands, hmeans, rfl⟩
  · exact wellFormed_empty tag
  · apply wellFormed_ofRecords
    · intro record hmem
      obtain ⟨entry, hentry, -, hid⟩ := exists_entry_of_describes hmeans hmem
      rw [hid]
      exact hstands.ids entry hentry
    · intro record hmem
      obtain ⟨entry, hentry, hdescribes, -⟩ := exists_entry_of_describes hmeans hmem
      exact hdescribes.wellFormed (hstands.typeIds entry hentry)

end Registry

/-! ## Loads -/

/-- Bytes behind the framing; none if the framing is not good. -/
def Framing.payloadLength (framing : Framing) (bytes : Bytes) : Nat :=
  match framing.payload bytes with
  | .ok payload => payload.length
  | .error _ => 0

namespace Registry

theorem load_safe (bytes : Bytes) (options : LoadOptions) (tag : UInt64)
    (hsize : bytes.length < UInt64.size) :
    (Audited.load bytes options tag).outcome = load bytes options tag ∧
    (∀ demand ∈ (Audited.load bytes options tag).demands,
      demand.Met (max 1 (options.framing.payloadLength bytes))) ∧
    ∀ registry, load bytes options tag = .ok registry → registry.WellFormed := by
  have hlength : options.framing.payloadLength bytes ≤ bytes.length := by
    unfold Framing.payloadLength
    split
    · next payload hpayload => exact Framing.length_payload_le hpayload
    · exact Nat.zero_le _
  have hsafe : (Audited.load bytes options tag).Safe
      (max 1 (options.framing.payloadLength bytes)) (load bytes options tag) := by
    apply Audited.safe_load
    · intro payload hpayload
      rw [Framing.payloadLength, hpayload]
      exact Nat.le_max_right _ _
    · exact Nat.le_max_left _ _
    · exact Nat.max_lt.mpr ⟨by decide, Nat.lt_of_le_of_lt hlength hsize⟩
  exact ⟨hsafe.outcome_eq, hsafe.met, fun _ => wellFormed_of_load⟩

/-- A struct whose one field has the struct as its type, with a name pool behind the table. -/
def selfReferring : Bytes :=
  TypeTable.toBytes .host ⟨[⟨1, 78, 8, .struct [⟨78, 0, 1, 0, 0, 1⟩]⟩]⟩ ++
    (Bytes.ofString "t" ++ [0])

theorem load_safe_selfReferring :
    selfReferring.length < UInt64.size ∧
    (∃ registry, load selfReferring ⟨true, .raw⟩ 0 = .ok registry ∧ registry.WellFormed) ∧
    Demand.push true ∈ (Audited.load selfReferring ⟨true, .raw⟩ 0).demands ∧
    ∀ demand ∈ (Audited.load selfReferring ⟨true, .raw⟩ 0).demands, demand.Met 80 := by
  have hlength : selfReferring.length = 80 := by decide +kernel
  have hsize : selfReferring.length < UInt64.size := by
    rw [hlength]
    decide
  obtain ⟨-, hmet, hformed⟩ := load_safe selfReferring ⟨true, .raw⟩ 0 hsize
  have hlimit : max 1 (Framing.payloadLength .raw selfReferring) = 80 := by
    show max 1 selfReferring.length = 80
    rw [hlength]
    rfl
  have hok : (load selfReferring ⟨true, .raw⟩ 0).toOption.isSome = true := by decide +kernel
  refine ⟨hsize, ?_, by decide +kernel, ?_⟩
  · cases hload : load selfReferring ⟨true, .raw⟩ 0 with
    | error fault =>
        rw [hload] at hok
        cases hok
    | ok registry => exact ⟨registry, rfl, hformed registry hload⟩
  · rw [← hlimit]
    exact hmet

end Registry

end TypeAtlas
