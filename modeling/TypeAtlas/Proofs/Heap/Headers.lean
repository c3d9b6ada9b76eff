import TypeAtlas.Heap.Contract
import TypeAtlas.Proofs.Registry.Tags

/-!
# Headers in memory

A header that was written is read back as it was, so a payload behind one is known to the
registry that the header names and to no other. A header whose mark is cleared is no one's.
-/

namespace TypeAtlas

namespace TagHeader

theorem word_restored (n : UInt64) :
    UInt64.ofNat (Bytes.toWord hostOrder (Bytes.ofWord hostOrder 8 n.toNat)) = n := by
  have hlt : n.toNat < Bytes.wordCount 8 := n.toNat_lt
  rw [Bytes.toWord_ofWord, Nat.mod_eq_of_lt hlt, UInt64.ofNat_toNat]

theorem ofBytes_toBytes (header : TagHeader) : ofBytes header.toBytes = header := by
  obtain ⟨magic, flag, registry, typeId, size⟩ := header
  have hmagic : UInt32.ofNat (Bytes.toWord hostOrder (Bytes.ofWord hostOrder 4 magic.toNat)) =
      magic := by
    have hlt : magic.toNat < Bytes.wordCount 4 := magic.toNat_lt
    rw [Bytes.toWord_ofWord, Nat.mod_eq_of_lt hlt, UInt32.ofNat_toNat]
  have hflag : UInt8.ofNat (Bytes.toWord hostOrder [flag]) = flag := by
    simp [Bytes.toWord, hostOrder, ByteOrder.arrange, Bytes.value]
  simp only [ofBytes, toBytes, Bytes.slice]
  simp [List.drop_append, List.drop_of_length_le, List.take_of_length_le, word_restored, hmagic,
    hflag]

def of (registry : Registry) (record : TypeRecord) : TagHeader :=
  ⟨liveMagic, 0, registry.tag, UInt64.ofNat record.id.index, record.size⟩

end TagHeader

/-- A value lies behind the header of its type, which is one of its registry's own. -/
structure TaggedValue.Tagged (registries : List Registry) (memory : Memory)
    (value : TaggedValue) : Prop where
  registry : value.registry ∈ registries
  own : value.registry.typeById? value.type.id = some value.type
  behind : TagHeader.length ≤ value.payload
  header : memory.read (value.payload - TagHeader.length) TagHeader.length =
    (TagHeader.of value.registry value.type).toBytes

namespace Registry

theorem acceptHeader?_of (registry owner : Registry) (record : TypeRecord) :
    registry.acceptHeader? (.of owner record) =
      if owner.tag = registry.tag then some (.of owner record) else none := by
  have hlive : (TagHeader.of owner record).isLive = true := rfl
  simp only [acceptHeader?, hlive, Bool.true_and, beq_iff_eq]
  rfl

section
variable {registries : List Registry} {memory : Memory} {value : TaggedValue}
  (h : value.Tagged registries memory)
include h

theorem header?_of_tagged (registry : Registry) :
    registry.header? memory value.payload =
      if value.registry.tag = registry.tag then some (.of value.registry value.type)
      else none := by
  have hbehind := h.behind
  have hlength : TagHeader.length = 32 := rfl
  rw [header?, if_neg (by omega), h.header, TagHeader.ofBytes_toBytes, acceptHeader?_of]

variable (hregistries : BuiltInTurn registries)
include hregistries

theorem typeOf?_of_tagged : value.registry.typeOf? memory value.payload = some value.type := by
  have hindex : value.type.id.index < UInt64.size := hregistries.index_lt h.registry h.own
  have hnamed : value.registry.typeOfHeader? (.of value.registry value.type) =
      some value.type := by
    rw [typeOfHeader?, TagHeader.of, UInt64.toNat_ofNat_of_lt' hindex]
    exact h.own
  rw [typeOf?, header?_of_tagged h, if_pos rfl]
  exact hnamed

theorem header?_of_tagged_elsewhere {registry : Registry} (hmem : registry ∈ registries)
    (hne : registry ≠ value.registry) : registry.header? memory value.payload = none := by
  have htag : value.registry.tag ≠ registry.tag := by
    intro htag
    exact hne (hregistries.eq_of_tag_eq hmem h.registry htag.symm)
  rw [header?_of_tagged h, if_neg htag]

end

theorem typeOf?_of_header?_none {registry : Registry} {memory : Memory} {payload : Nat}
    (h : registry.header? memory payload = none) : registry.typeOf? memory payload = none := by
  rw [typeOf?, h]
  rfl

end Registry

/-! ## Cleared headers -/

theorem Memory.take_read (memory : Memory) (address : Nat) {count kept : Nat}
    (h : kept ≤ count) : (memory.read address count).take kept = memory.read address kept := by
  rw [read, read, ← List.map_take, List.take_range, Nat.min_eq_left h]

theorem Registry.header?_of_cleared (registry : Registry) {memory : Memory} {payload : Nat}
    (h : memory.read (payload - TagHeader.length) 4 = List.replicate 4 0) :
    registry.header? memory payload = none := by
  have hslice : Bytes.slice (memory.read (payload - TagHeader.length) TagHeader.length) 0 4 =
      List.replicate 4 0 := by
    rw [Bytes.slice, List.drop_zero, Memory.take_read _ _ (by decide), h]
  have hmagic : (TagHeader.ofBytes
      (memory.read (payload - TagHeader.length) TagHeader.length)).isLive = false := by
    rw [TagHeader.isLive, TagHeader.ofBytes, hslice]
    rfl
  rw [header?, acceptHeader?, hmagic]
  simp

end TypeAtlas
