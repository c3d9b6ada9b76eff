import TypeAtlas.Proofs.Registry.RoundTrip
import TypeAtlas.Proofs.Schema.Merging

/-!
# Registries of distinct names

Where the types of a schema have distinct names, each is found under its own name with its
rank for its id, and the registry that was loaded from the encoded schema holds these types
and no other.
-/

namespace TypeAtlas.Schema

variable {schema : Schema} {copies : Bool} {registry : Registry}

/-- A registry that has every type of a schema under its name, with its rank for its id and
all that its definition says, and that has no other type. -/
structure Presented (schema : Schema) (copies : Bool) (registry : Registry) : Prop where
  types : ∀ (position : Nat) (ty : TypeDef), schema.types[position]? = some ty →
    ∃ record, registry.typeByName? ty.name = some record ∧
      ty.Restored schema copies (position + 1) record
  absent : ∀ name, name ∉ schema.types.map (·.name) → registry.typeByName? name = none
  listed : registry.types.map (·.name.text) = schema.types.map (·.name)

/-- Behind the free slot of the unresolved id, the slots hold the types in order. -/
theorem Restored.slots (h : schema.Restored copies registry) :
    registry.slots.toList.map (fun slot => slot.map (·.name.text)) =
      none :: schema.types.map fun ty => some ty.name := by
  have hsize : registry.slots.size = schema.types.length + 1 := h.idCapacity
  apply List.ext_getElem?
  intro index
  rw [List.getElem?_map, Array.getElem?_toList]
  cases index with
  | zero =>
    have hvacant := h.vacant
    rw [Registry.typeById?, TypeId.unresolved] at hvacant
    have hin : 0 < registry.slots.size := by omega
    rw [Array.getElem?_eq_getElem hin, Option.join_some] at hvacant
    rw [Array.getElem?_eq_getElem hin, hvacant]
    rfl
  | succ position =>
    rw [List.getElem?_cons_succ, List.getElem?_map]
    cases hty : schema.types[position]? with
    | none =>
      have hout : registry.slots.size ≤ position + 1 := by
        have hle := List.getElem?_eq_none_iff.mp hty
        omega
      rw [Array.getElem?_eq_none hout]
      rfl
    | some ty =>
      obtain ⟨record, hrecord, hrestored⟩ := h.types position ty hty
      rw [Registry.typeById?, Option.join_eq_some_iff] at hrecord
      rw [hrecord, Option.map_some, Option.map_some, Option.map_some, hrestored.name]

theorem Restored.map_name_types (h : schema.Restored copies registry) :
    registry.types.map (·.name.text) = schema.types.map (·.name) := by
  have hflat : ∀ slots : List (Option TypeRecord),
      (slots.filterMap fun slot => slot).map (·.name.text) =
        (slots.map fun slot => slot.map (·.name.text)).filterMap fun slot => slot := by
    intro slots
    rw [List.map_filterMap, List.filterMap_map]
    rfl
  rw [Registry.types, hflat, h.slots, List.filterMap_cons_none rfl, List.filterMap_map]
  exact congrFun List.filterMap_eq_map' _

theorem Restored.presented (h : schema.Restored copies registry)
    (hnodup : (schema.types.map (·.name)).Nodup) : schema.Presented copies registry where
  types position ty hty := by
    obtain ⟨record, hrecord, hrestored⟩ := h.types position ty hty
    have hname : (schema.types.map (·.name))[position]? = some ty.name := by
      rw [List.getElem?_map, hty, Option.map_some]
    refine ⟨record, ?_, hrestored⟩
    rw [h.names, lookup_ids, schema.id?_of_nodup hnodup hname]
    exact hrecord
  absent name hnew := by
    have hpresent := h.present name
    have hnone : ¬ (schema.get? name).isSome := by
      rw [get?_isSome_iff]
      rintro ⟨ty, hmem, rfl⟩
      exact hnew (List.mem_map_of_mem hmem)
    rw [Bool.not_eq_true] at hnone
    rw [hnone] at hpresent
    exact Option.isNone_iff_eq_none.mp (Option.isSome_eq_false_iff.mp hpresent)
  listed := h.map_name_types

/-- What is written for the host loads again, with its header looked for if it has one. -/
theorem load_written {framed : Bool} {blob : Bytes}
    (hencode : schema.encode ⟨8, hostOrder, framed⟩ = .ok blob)
    (hsize : blob.length < UInt64.size) (copies : Bool) (tag : UInt64) :
    ∃ registry, Registry.load blob ⟨copies, if framed then .detect else .raw⟩ tag = .ok registry ∧
      schema.Restored copies registry := by
  obtain ⟨target, table, pool, htarget, -, hemitted, rfl⟩ := encode_eq_ok hencode
  cases htarget
  rw [List.length_append, List.length_append] at hsize
  obtain ⟨registry, hload, hrestored⟩ := hemitted.load_raw (by omega) copies tag
  refine ⟨registry, ?_, hrestored⟩
  rw [← hload]
  apply Registry.load_of_payload
  cases framed with
  | true => exact Framing.payload_header (by decide) (table ++ pool)
  | false => rfl

end TypeAtlas.Schema
