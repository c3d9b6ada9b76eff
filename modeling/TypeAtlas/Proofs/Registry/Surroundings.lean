import TypeAtlas.Proofs.Registry.Acceptance

/-!
# The payload around a table

A table says where names stand, so what it describes depends on the payload around it. It depends
on no more of it than the texts at these offsets: wherever they all stand, the table describes the
same records. And bytes behind a table that is read never make it another one.
-/

namespace TypeAtlas

namespace Bytes

/-- Every text that stands at an offset of one payload stands there in another as well. -/
def KeepsTextAt (payload other : Bytes) (offset : Nat) : Prop :=
  ∀ text, TextAt payload offset text → TextAt other offset text

theorem KeepsTextAt.hasText {payload other : Bytes} {offset : Nat}
    (h : payload.KeepsTextAt other offset) (htext : payload.HasText offset) :
    other.HasText offset := by
  obtain ⟨text, hstands⟩ := htext
  exact ⟨text, h text hstands⟩

/-- A text is closed by the first NUL behind it, so nothing that comes later matters. -/
theorem keepsTextAt_append (payload more : Bytes) (offset : Nat) :
    payload.KeepsTextAt (payload ++ more) offset := by
  intro text h
  obtain ⟨hplain, behind, hbehind⟩ := h
  refine ⟨hplain, behind ++ more, ?_⟩
  have hin : offset ≤ payload.length := by
    have hlength := congrArg List.length hbehind
    simp only [List.length_drop, List.length_append, List.length_cons] at hlength
    omega
  rw [List.drop_append_of_le_length hin, hbehind]
  simp

/-- Behind fronts of one length the payloads are the same. -/
theorem keepsTextAt_behind {front other : Bytes} (hlength : other.length = front.length)
    (tail : Bytes) {offset : Nat} (hbehind : front.length ≤ offset) :
    KeepsTextAt (front ++ tail) (other ++ tail) offset := by
  intro text h
  obtain ⟨hplain, behind, hdrop⟩ := h
  refine ⟨hplain, behind, ?_⟩
  rw [← hdrop, List.drop_append, List.drop_append, hlength, List.drop_of_length_le hbehind,
    List.drop_of_length_le (hlength.trans_le hbehind)]

end Bytes

/-! ## Descriptions -/

section
variable {payload other : Bytes} {copies : Bool}

theorem TableField.Describes.carry {listed : TableField} {field : Field}
    (h : listed.Describes payload copies field) (hkeeps : payload.KeepsTextAt other listed.name) :
    listed.Describes other copies field :=
  { h with name := hkeeps _ h.name }

theorem TableEnumerator.Describes.carry {listed : TableEnumerator} {enumerator : Enumerator}
    (h : listed.Describes payload copies enumerator)
    (hkeeps : payload.KeepsTextAt other listed.name) : listed.Describes other copies enumerator :=
  { h with name := hkeeps _ h.name }

/-- What holds of listed values and what they stand for holds again where each of them keeps it. -/
theorem forall₂_carry {relation further : α → β → Prop} {listed : List α} {values : List β}
    (h : List.Forall₂ relation listed values)
    (hcarry : ∀ first ∈ listed, ∀ second, relation first second → further first second) :
    List.Forall₂ further listed values := by
  have hlisted := (List.forall₂_and_left _ _).mpr ⟨fun _ hmem => hmem, h⟩
  apply hlisted.imp
  intro first second hpair
  exact hcarry first hpair.1 second hpair.2

theorem TableShape.Describes.carry {shape : TableShape} {members : Members}
    (h : shape.Describes payload copies members)
    (hkeeps : ∀ offset ∈ shape.nameOffsets, payload.KeepsTextAt other offset) :
    shape.Describes other copies members := by
  cases h with
  | base => exact .base
  | struct hfields =>
    exact .struct (forall₂_carry hfields fun _ hmem _ hfield =>
      hfield.carry (hkeeps _ (List.mem_map_of_mem hmem)))
  | union hfields =>
    exact .union (forall₂_carry hfields fun _ hmem _ hfield =>
      hfield.carry (hkeeps _ (List.mem_map_of_mem hmem)))
  | enum henumerators =>
    exact .enum (forall₂_carry henumerators fun _ hmem _ henumerator =>
      henumerator.carry (hkeeps _ (List.mem_map_of_mem hmem)))

theorem TableEntry.Describes.carry {entry : TableEntry} {record : TypeRecord}
    (h : entry.Describes payload copies record)
    (hkeeps : ∀ offset ∈ entry.name :: entry.shape.nameOffsets, payload.KeepsTextAt other offset) :
    entry.Describes other copies record :=
  { h with
    name := hkeeps _ List.mem_cons_self _ h.name
    members := h.members.carry fun offset hmem => hkeeps offset (List.mem_cons_of_mem _ hmem) }

/-- A table describes the same records wherever its names stand. -/
theorem TypeTable.describes_carry {entries : List TableEntry} {records : List TypeRecord}
    (h : List.Forall₂ (TableEntry.Describes payload copies) entries records)
    (hkeeps : ∀ offset ∈ (TypeTable.mk entries).nameOffsets, payload.KeepsTextAt other offset) :
    List.Forall₂ (TableEntry.Describes other copies) entries records :=
  forall₂_carry h fun entry hmem _ hentry =>
    hentry.carry fun offset hoffset =>
      hkeeps offset (List.mem_flatMap.mpr ⟨entry, hmem, hoffset⟩)

end

/-! ## Tables in longer payloads -/

namespace TypeTable

variable {target : Target} {table : TypeTable} {bytes tail : Bytes}

theorem read?_append (h : read? target bytes = some (table, tail)) (more : Bytes) :
    read? target (bytes ++ more) = some (table, tail ++ more) := by
  obtain ⟨hfits, rfl⟩ := (reads target bytes table tail).mp h
  exact (reads target _ table _).mpr ⟨hfits, List.append_assoc ..⟩

theorem length_of_read? (h : read? target bytes = some (table, tail)) :
    bytes.length = (table.toBytes target).length + tail.length := by
  rw [((reads target bytes table tail).mp h).2, List.length_append]

/-- A table that stands at the front of a part stands at the front of the whole. -/
theorem eq_of_read?_take {part : TypeTable} {count : Nat} {rest : Bytes}
    (h : read? target bytes = some (table, tail))
    (hpart : read? target (bytes.take count) = some (part, rest)) : part = table := by
  have hwhole := read?_append hpart (bytes.drop count)
  rw [List.take_append_drop, h] at hwhole
  cases hwhole
  rfl

theorem StandsIn.append {payload : Bytes} (h : table.StandsIn payload) (more : Bytes) :
    table.StandsIn (payload ++ more) where
  reads := by
    obtain ⟨behind, hread⟩ := h.reads
    exact ⟨behind ++ more, read?_append hread more⟩
  ids := h.ids
  typeIds := h.typeIds
  names offset hmem := (payload.keepsTextAt_append more offset).hasText (h.names offset hmem)

/-- No record that a table describes has an id outside of it. -/
theorem StandsIn.id_le {payload : Bytes} (h : table.StandsIn payload) {copies : Bool}
    {records : List TypeRecord}
    (hmeans : List.Forall₂ (TableEntry.Describes payload copies) table.entries records) :
    ∀ record ∈ records, record.id.index ≤ table.entries.length := by
  intro record hmem
  obtain ⟨entry, hentry, -, hid⟩ := exists_entry_of_describes hmeans hmem
  rw [hid]
  exact h.ids entry hentry

/-- Every payload in which a table stands holds a count at least. -/
theorem StandsIn.hostWidth_le {payload : Bytes} (h : table.StandsIn payload) :
    hostWidth ≤ payload.length := by
  obtain ⟨behind, hread⟩ := h.reads
  have hlength := length_of_read? hread
  simp only [toBytes, List.length_append, Target.length_ofNat, Target.host, WordWidth.bytes]
    at hlength
  simp only [hostWidth]
  omega

end TypeTable

/-! ## Registries of one table -/

namespace Registry

/-- A payload that is accepted and not empty has a count at its front, which is as long as a
header. -/
theorem hostWidth_le_of_load_raw {payload : Bytes} {copies : Bool} {tag : UInt64}
    {registry : Registry} (h : load payload ⟨copies, .raw⟩ tag = .ok registry)
    (hne : payload ≠ []) : hostWidth ≤ payload.length := by
  rcases load_raw_eq_ok_iff.mp h with ⟨hempty, -⟩ | ⟨table, -, hstands, -⟩
  · exact absurd hempty hne
  · exact hstands.hostWidth_le

structure SameTypes (registry other : Registry) : Prop where
  idCapacity : registry.idCapacity = other.idCapacity
  typeById : ∀ id, registry.typeById? id = other.typeById? id
  typeByName : ∀ name, registry.typeByName? name = other.typeByName? name

/-- What the last entries of ids and names are is all that a registry shows of its table. -/
theorem sameTypes_ofRecords {count : Nat} {records others : List TypeRecord}
    (hids : ∀ record ∈ records, record.id.index ≤ count)
    (hothers : ∀ record ∈ others, record.id.index ≤ count)
    (hid : ∀ id, lastWith? (·.id) records id = lastWith? (·.id) others id)
    (hname : ∀ name, lastWith? (·.name.text) records name = lastWith? (·.name.text) others name)
    (tag later : UInt64) :
    (ofRecords count records tag).SameTypes (ofRecords count others later) where
  idCapacity := by rw [idCapacity_ofRecords, idCapacity_ofRecords]
  typeById id := by
    rw [typeById?_ofRecords records count tag hids, typeById?_ofRecords others count later hothers]
    exact hid id
  typeByName name := by
    have hnamed := hname name
    rw [typeByName?_ofRecords records count tag hids,
      typeByName?_ofRecords others count later hothers, ← hnamed]
    congr 1
    funext record
    exact hid record.id

end Registry

end TypeAtlas
