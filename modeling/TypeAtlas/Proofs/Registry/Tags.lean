import TypeAtlas.Proofs.Registry.TakenIds

/-!
# Tags of registries

Registries that are built one after the other are numbered by their tags, from 1 on. As long as
the numbers fit a word no two of them share a tag.
-/

namespace TypeAtlas.Registry

/-- Registries as they come to be with a tag: empty, loaded, or detached from their blob. -/
inductive Built (tag : UInt64) : Registry → Prop
  | empty : Built tag (.empty tag)
  | load {bytes : Bytes} {options : LoadOptions} {registry : Registry}
      (h : Registry.load bytes options tag = .ok registry) : Built tag registry
  | detach {registry : Registry} (h : Built tag registry) : Built tag registry.detach

/-- All registries ever built, in their order: the one at some position has the next number as
its tag. There are fewer of them than there are words. -/
structure BuiltInTurn (registries : List Registry) : Prop where
  few : registries.length < UInt64.size
  built : ∀ (position : Nat) (registry : Registry), registries[position]? = some registry →
    registry.Built (UInt64.ofNat (position + 1))

theorem tag_foldl_put (registry : Registry) (records : List TypeRecord) :
    (records.foldl put registry).tag = registry.tag := by
  induction records generalizing registry with
  | nil => rfl
  | cons record rest ih => exact ih (registry.put record)

namespace Built

variable {tag : UInt64} {registry : Registry}

theorem tag_eq (h : registry.Built tag) : registry.tag = tag := by
  induction h with
  | empty => rfl
  | load h =>
      obtain ⟨count, records, -, -, -, rfl⟩ := exists_entries_of_load h
      exact tag_foldl_put (withCount count tag) records
  | detach _ ih => exact ih

/-- Every id of a registry is a word. -/
theorem idCapacity_le (h : registry.Built tag) : registry.idCapacity ≤ UInt64.size := by
  induction h with
  | empty => exact Nat.le_add_left 1 (UInt64.size - 1)
  | load h =>
      obtain ⟨count, records, -, hcount, -, rfl⟩ := exists_entries_of_load h
      rw [idCapacity_ofRecords]
      exact hcount
  | detach _ ih => simpa [Registry.detach, idCapacity] using ih

end Built

namespace BuiltInTurn

variable {registries : List Registry} (h : BuiltInTurn registries)
include h

theorem toNat_tag {position : Nat} {registry : Registry}
    (hposition : registries[position]? = some registry) : registry.tag.toNat = position + 1 := by
  have hlt := (List.getElem?_eq_some_iff.mp hposition).1
  rw [(h.built position registry hposition).tag_eq]
  exact UInt64.toNat_ofNat_of_lt' (Nat.lt_of_le_of_lt hlt h.few)

theorem eq_of_tag_eq {registry other : Registry} (hmem : registry ∈ registries)
    (hother : other ∈ registries) (htag : registry.tag = other.tag) : registry = other := by
  obtain ⟨position, hposition⟩ := List.mem_iff_getElem?.mp hmem
  obtain ⟨second, hsecond⟩ := List.mem_iff_getElem?.mp hother
  have hnumber := h.toNat_tag hposition
  rw [htag, h.toNat_tag hsecond] at hnumber
  cases Nat.succ.inj hnumber
  exact Option.some.inj (hposition.symm.trans hsecond)

theorem index_lt {registry : Registry} (hmem : registry ∈ registries) {id : TypeId}
    {record : TypeRecord} (hrecord : registry.typeById? id = some record) :
    id.index < UInt64.size := by
  obtain ⟨position, hposition⟩ := List.mem_iff_getElem?.mp hmem
  have hslot := Option.join_eq_some_iff.mp hrecord
  have hin : id.index < registry.idCapacity := (Array.getElem?_eq_some_iff.mp hslot).1
  exact Nat.lt_of_lt_of_le hin (h.built position registry hposition).idCapacity_le

end BuiltInTurn

end TypeAtlas.Registry
