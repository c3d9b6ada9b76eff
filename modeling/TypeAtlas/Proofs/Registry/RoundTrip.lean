import TypeAtlas.Blob.Encode
import TypeAtlas.Proofs.Blob.EncodedLayout
import TypeAtlas.Proofs.Blob.Framing
import TypeAtlas.Proofs.Registry.Acceptance
import TypeAtlas.Proofs.Registry.Restoration

/-!
# Loading what was encoded

A blob that was encoded for the host, framed or bare, loads with the framing that goes with
it, and the registry says what the schema says: every type under its id, and under every name
the type whose id the schema gives for it.
-/

namespace TypeAtlas

structure Schema.Restored (schema : Schema) (copies : Bool) (registry : Registry) : Prop where
  idCapacity : registry.idCapacity = schema.types.length + 1
  vacant : registry.typeById? .unresolved = none
  types : ∀ position ty, schema.types[position]? = some ty →
    ∃ record, registry.typeById? ⟨position + 1⟩ = some record ∧
      ty.Restored schema copies (position + 1) record
  names : ∀ name, registry.typeByName? name =
    (schema.ids.lookup name).bind fun id => registry.typeById? ⟨id⟩
  present : ∀ name, (registry.typeByName? name).isSome = (schema.get? name).isSome

namespace Schema

variable {schema : Schema} {table pool : Bytes} {copies : Bool}

/-! ## The table stands in its payload -/

theorem Emitted.standsIn (h : schema.Emitted .host table pool)
    (hsize : table.length + pool.length < UInt64.size) :
    (schema.typeTable 8).StandsIn (table ++ pool) where
  reads := ⟨pool, (h.laidOut hsize).reads⟩
  ids entry hmem := by
    obtain ⟨⟨ty, position⟩, hty, rfl⟩ := List.mem_map.mp hmem
    have hposition := List.snd_lt_of_mem_zipIdx hty
    simp only [typeTable, List.length_map, List.length_zipIdx, tableEntry]
    omega
  typeIds entry hmem id hid := by
    obtain ⟨⟨ty, position⟩, hty, rfl⟩ := List.mem_map.mp hmem
    have hfield : ∃ field, schema.fieldTypeId field = id := by
      simp only [tableEntry, tableShape] at hid
      cases hkind : ty.kind <;>
        simp_all [TableShape.typeIds, tableField]
      all_goals
        obtain ⟨field, -, hfield⟩ := hid
        exact ⟨field, hfield⟩
    obtain ⟨field, rfl⟩ := hfield
    have hle := schema.fieldTypeId_le field
    simpa [typeTable] using hle
  names offset hmem := by
    obtain ⟨name, -, -, htext⟩ := exists_of_forall₂ (h.laidOut hsize).names hmem
    exact ⟨name, htext⟩

/-! ## Look-up among restored records -/

/-- Records that restore some types, whose ids count on from one more than a start. -/
def RecordsRestored (schema : Schema) (copies : Bool) (start : Nat) (types : List TypeDef)
    (records : List TypeRecord) : Prop :=
  List.Forall₂ (fun numbered record => numbered.1.Restored schema copies (numbered.2 + 1) record)
    (types.zipIdx start) records

theorem RecordsRestored.lastWith?_name {start : Nat} {types : List TypeDef}
    {records : List TypeRecord} (h : RecordsRestored schema copies start types records)
    (name : String) :
    (Registry.lastWith? (·.name.text) records name).map TypeRecord.id =
      (lastIdFrom name start types).map TypeId.mk := by
  induction types generalizing start records with
  | nil =>
      cases h
      rfl
  | cons ty rest ih =>
      rw [RecordsRestored, List.zipIdx_cons] at h
      cases h with
      | cons hfirst hrest =>
          rw [Registry.lastWith?_cons, lastIdFrom, Option.map_or, Option.map_or, ih hrest,
            hfirst.name]
          by_cases heq : ty.name = name
          · simp [heq, hfirst.id]
          · simp [heq]

theorem RecordsRestored.exists_type {records : List TypeRecord}
    (h : RecordsRestored schema copies 0 schema.types records) {record : TypeRecord}
    (hmem : record ∈ records) :
    ∃ (position : Nat) (ty : TypeDef), schema.types[position]? = some ty ∧
      ty.Restored schema copies (position + 1) record := by
  obtain ⟨⟨ty, position⟩, hnumbered, hrestored⟩ := exists_of_forall₂ h.flip hmem
  exact ⟨position, ty, List.mk_mem_zipIdx_iff_getElem?.mp hnumbered, hrestored⟩

theorem RecordsRestored.lastWith?_id {records : List TypeRecord}
    (h : RecordsRestored schema copies 0 schema.types records) {position : Nat} {ty : TypeDef}
    (hty : schema.types[position]? = some ty) :
    ∃ record, Registry.lastWith? (·.id) records ⟨position + 1⟩ = some record ∧
      ty.Restored schema copies (position + 1) record := by
  obtain ⟨record, hmem, hrestored⟩ :=
    exists_of_forall₂ h (List.mk_mem_zipIdx_iff_getElem?.mpr hty)
  obtain ⟨found, hfound⟩ := Registry.lastWith?_of_mem hmem hrestored.id
  obtain ⟨hfoundMem, hid⟩ := Registry.lastWith?_eq_some hfound
  obtain ⟨other, otherTy, hother, hotherRestored⟩ := h.exists_type hfoundMem
  -- An id gives its position back, so the record found is of the same type.
  have hsame : other = position := by
    have hids := hotherRestored.id.symm.trans hid
    simpa using hids
  subst hsame
  rw [hty] at hother
  cases hother
  exact ⟨found, hfound, hotherRestored⟩

theorem RecordsRestored.id_le {records : List TypeRecord}
    (h : RecordsRestored schema copies 0 schema.types records) {record : TypeRecord}
    (hmem : record ∈ records) : record.id.index ≤ schema.types.length := by
  obtain ⟨position, ty, hty, hrestored⟩ := h.exists_type hmem
  rw [hrestored.id]
  exact (List.getElem?_eq_some_iff.mp hty).1

theorem RecordsRestored.lastWith?_unresolved {records : List TypeRecord}
    (h : RecordsRestored schema copies 0 schema.types records) :
    Registry.lastWith? (·.id) records .unresolved = none := by
  cases hfound : Registry.lastWith? (·.id) records .unresolved with
  | none => rfl
  | some record =>
      obtain ⟨hmem, hid⟩ := Registry.lastWith?_eq_some hfound
      obtain ⟨position, ty, -, hrestored⟩ := h.exists_type hmem
      have hzero := hrestored.id.symm.trans hid
      simp [TypeId.unresolved] at hzero

/-- The record that a name leads to is the one at the id that the schema gives the name. -/
theorem RecordsRestored.bind_lastWith?_name {records : List TypeRecord}
    (h : RecordsRestored schema copies 0 schema.types records) (name : String) :
    ((Registry.lastWith? (·.name.text) records name).bind fun record =>
        Registry.lastWith? (·.id) records record.id) =
      (schema.id? name).bind fun id => Registry.lastWith? (·.id) records ⟨id⟩ := by
  have hlast := h.lastWith?_name name
  rw [← id?] at hlast
  cases hfound : Registry.lastWith? (·.name.text) records name with
  | none =>
      rw [hfound, Option.map_none, eq_comm, Option.map_eq_none_iff] at hlast
      rw [hlast]
      rfl
  | some record =>
      rw [hfound, Option.map_some, eq_comm, Option.map_eq_some_iff] at hlast
      obtain ⟨id, hid, heq⟩ := hlast
      rw [hid, Option.bind_some, Option.bind_some, ← heq]

theorem RecordsRestored.isSome_iff {records : List TypeRecord}
    (h : RecordsRestored schema copies 0 schema.types records) (name : String) :
    ((schema.id? name).bind fun id => Registry.lastWith? (·.id) records ⟨id⟩).isSome =
      (schema.get? name).isSome := by
  have hpresent : (schema.get? name).isSome = (schema.id? name).isSome := by
    rw [Bool.eq_iff_iff, get?_isSome_iff, id?_isSome_iff]
  rw [hpresent]
  cases hid : schema.id? name with
  | none => rfl
  | some id =>
      obtain ⟨position, hlast, rfl⟩ := (schema.id?_eq_some_iff name).mp hid
      obtain ⟨ty, hty, -⟩ := Option.map_eq_some_iff.mp hlast.1
      obtain ⟨record, hrecord, -⟩ := h.lastWith?_id hty
      rw [Option.bind_some, hrecord]
      rfl

theorem RecordsRestored.restored {records : List TypeRecord}
    (h : RecordsRestored schema copies 0 schema.types records) (tag : UInt64) :
    schema.Restored copies (.ofRecords schema.types.length records tag) := by
  have hids := fun record (hmem : record ∈ records) => h.id_le hmem
  have hbyId := Registry.typeById?_ofRecords records schema.types.length tag hids
  have hbyName := Registry.typeByName?_ofRecords records schema.types.length tag hids
  refine ⟨Registry.idCapacity_ofRecords .., ?_, ?_, ?_, ?_⟩
  · rw [hbyId, h.lastWith?_unresolved]
  · intro position ty hty
    rw [hbyId]
    exact h.lastWith?_id hty
  · intro name
    rw [hbyName, h.bind_lastWith?_name, lookup_ids]
    simp only [hbyId]
  · intro name
    rw [hbyName, h.bind_lastWith?_name, h.isSome_iff]

/-! ## The round trip -/

theorem Emitted.load_raw (h : schema.Emitted .host table pool)
    (hsize : table.length + pool.length < UInt64.size) (copies : Bool) (tag : UInt64) :
    ∃ registry, Registry.load (table ++ pool) ⟨copies, .raw⟩ tag = .ok registry ∧
      schema.Restored copies registry := by
  have hstands := h.standsIn hsize
  obtain ⟨records, hmeans⟩ := hstands.exists_describes copies
  have hlength : (schema.typeTable 8).entries.length = schema.types.length := by
    simp [typeTable]
  have hload := Registry.load_of_describes hstands hmeans tag
  have hrestored : RecordsRestored schema copies 0 schema.types records := h.types_restored hmeans
  refine ⟨_, hload, ?_⟩
  rw [hlength]
  exact hrestored.restored tag

/-- A bare blob is loaded as it is, and a framed one by its header. -/
theorem load_encode {schema : Schema} {framed : Bool} {bytes : Bytes}
    (hencode : schema.encode ⟨8, .little, framed⟩ = .ok bytes)
    (hsize : bytes.length < UInt64.size) {framing : Framing}
    (hframing : framed = true ↔ framing ≠ .raw) (copies : Bool) (tag : UInt64) :
    ∃ registry, Registry.load bytes ⟨copies, framing⟩ tag = .ok registry ∧
      schema.Restored copies registry := by
  obtain ⟨target, table, pool, htarget, -, hemitted, rfl⟩ := encode_eq_ok hencode
  cases htarget
  have hlength : table.length + pool.length < UInt64.size := by
    simp only [List.length_append] at hsize
    omega
  obtain ⟨registry, hload, hrestored⟩ := Emitted.load_raw hemitted hlength copies tag
  refine ⟨registry, ?_, hrestored⟩
  rw [← hload]
  apply Registry.load_of_payload
  cases framed with
  | true => exact Framing.payload_header (hframing.mp rfl) (table ++ pool)
  | false =>
      have hraw : framing = .raw := by
        by_contra hne
        cases hframing.mpr hne
      rw [hraw]
      rfl

theorem load_encode_sample :
    ∃ bytes registry, sample.encode ⟨8, .little, true⟩ = .ok bytes ∧
      bytes.length < UInt64.size ∧
      Registry.load bytes ⟨false, .detect⟩ 0 = .ok registry ∧ sample.Restored false registry := by
  have hencode : ∃ bytes, sample.encode ⟨8, .little, true⟩ = .ok bytes ∧ bytes.length = 228 := by
    cbv
    exact ⟨_, rfl, rfl⟩
  obtain ⟨bytes, hbytes, hlength⟩ := hencode
  have hsize : bytes.length < UInt64.size := by
    rw [hlength]
    decide
  obtain ⟨registry, hload, hrestored⟩ :=
    load_encode hbytes hsize (show true = true ↔ Framing.detect ≠ .raw by decide) false 0
  exact ⟨bytes, registry, hbytes, hsize, hload, hrestored⟩

end Schema

end TypeAtlas
