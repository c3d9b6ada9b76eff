import TypeAtlas.Proofs.Keyed
import TypeAtlas.Proofs.Registry.Surroundings
import TypeAtlas.Proofs.Registry.TakenIds

/-!
# The order of a type table

The entries of a table may stand in any order, as long as no two of them take one id or one name and
every name stands behind the table. The names then stay where they are when entries change places,
so the same records are read in another order, and each is still the only one of its id and name.
-/

namespace TypeAtlas

/-! ## Records of distinct keys -/

namespace Registry

section
variable {α : Type} [DecidableEq α] {key : TypeRecord → α} {records others : List TypeRecord}

theorem lastWith?_eq_some_iff (hnodup : (records.map key).Nodup) {value : α}
    {record : TypeRecord} :
    lastWith? key records value = some record ↔ record ∈ records ∧ key record = value := by
  constructor
  · exact lastWith?_eq_some
  · intro h
    obtain ⟨hmem, rfl⟩ := h
    apply Keyed.find?_key_of_mem
    · rw [List.map_reverse]
      exact (List.reverse_perm _).nodup_iff.mpr hnodup
    · exact List.mem_reverse.mpr hmem

/-- Where keys are distinct, the last record of a key is the only one, in whatever order. -/
theorem lastWith?_perm (hnodup : (records.map key).Nodup) (hperm : others.Perm records)
    (value : α) : lastWith? key others value = lastWith? key records value := by
  have hothers : (others.map key).Nodup := (hperm.map key).nodup_iff.mpr hnodup
  apply Option.ext
  intro record
  rw [lastWith?_eq_some_iff hothers, lastWith?_eq_some_iff hnodup, hperm.mem_iff]

end

end Registry

/-! ## Tables in another order -/

namespace TypeTable

variable {table : TypeTable} {order : List TableEntry}

theorem mem_nameOffsets_of_perm (h : order.Perm table.entries) {offset : Nat} :
    offset ∈ (TypeTable.mk order).nameOffsets ↔ offset ∈ table.nameOffsets :=
  (h.flatMap_right _).mem_iff

theorem length_toBytes_of_perm (target : Target) (h : order.Perm table.entries) :
    ((TypeTable.mk order).toBytes target).length = (table.toBytes target).length := by
  have hentries := (h.flatMap_right (TableEntry.toBytes target)).length_eq
  simp only [toBytes, List.length_append, Target.length_ofNat, hentries]

theorem fits_of_perm {target : Target} (h : order.Perm table.entries) (hfits : table.Fits target) :
    (TypeTable.mk order).Fits target := by
  refine ⟨?_, fun entry hmem => hfits.2 entry (h.mem_iff.mp hmem)⟩
  have hcount : (TypeTable.mk order).entries.length = table.entries.length := h.length_eq
  rw [hcount]
  exact hfits.1

/-- A table in another order stands in front of the same tail, as long as the names stay where they
are. -/
theorem StandsIn.reorder {tail : Bytes} (h : table.StandsIn (table.toBytes .host ++ tail))
    (horder : order.Perm table.entries)
    (hkeeps : ∀ offset ∈ table.nameOffsets, (table.toBytes .host ++ tail).KeepsTextAt
      ((TypeTable.mk order).toBytes .host ++ tail) offset) :
    (TypeTable.mk order).StandsIn ((TypeTable.mk order).toBytes .host ++ tail) where
  reads := by
    obtain ⟨behind, hread⟩ := h.reads
    have hfits := ((TypeTable.reads .host _ _ _).mp hread).1
    exact ⟨tail, (TypeTable.reads .host _ _ _).mpr ⟨fits_of_perm horder hfits, rfl⟩⟩
  ids entry hmem := by
    have hle := h.ids entry (horder.mem_iff.mp hmem)
    rwa [← horder.length_eq] at hle
  typeIds entry hmem id hid := by
    have hle := h.typeIds entry (horder.mem_iff.mp hmem) id hid
    rwa [← horder.length_eq] at hle
  names offset hmem := by
    have hlisted := (mem_nameOffsets_of_perm horder).mp hmem
    exact (hkeeps offset hlisted).hasText (h.names offset hlisted)

/-- Blocks in another order are the blocks of the entries in another order. -/
theorem exists_order_of_blocks {target : Target} {blocks : List Bytes}
    (h : blocks.Perm (table.entries.map (TableEntry.toBytes target))) :
    ∃ order : List TableEntry, order.Perm table.entries ∧
      target.ofNat table.entries.length ++ blocks.flatten =
        (TypeTable.mk order).toBytes target := by
  have hblocks : List.Forall₂ (fun block entry => block = entry.toBytes target)
      (table.entries.map (TableEntry.toBytes target)) table.entries := by
    rw [List.forall₂_map_left_iff, List.forall₂_same]
    exact fun _ _ => rfl
  obtain ⟨order, hcut, horder⟩ := List.perm_comp_forall₂ h hblocks
  have hall : blocks = order.map (TableEntry.toBytes target) := by
    rw [← List.forall₂_eq_eq_eq, List.forall₂_map_right_iff]
    exact hcut
  refine ⟨order, horder, ?_⟩
  rw [hall, toBytes, horder.length_eq, List.flatMap_def]

end TypeTable

namespace Registry

variable {copies : Bool} {tag : UInt64} {registry : Registry} {records : List TypeRecord}

/-- A table in front of a payload is the one that its records are described by. -/
theorem describes_of_entries {payload tail : Bytes} {table : TypeTable}
    (hread : TypeTable.read? .host payload = some (table, tail))
    (hentries : entries payload ⟨copies, .raw⟩ = .ok records) :
    table.StandsIn payload ∧
      List.Forall₂ (TableEntry.Describes payload copies) table.entries records := by
  have hrecords : (readTable (.start payload copies)).map (fun read => read.1.2) =
      .ok records := by
    cases payload with
    | nil => cases hread
    | cons byte rest => exact hentries
  obtain ⟨⟨⟨count, found⟩, next⟩, htable, rfl⟩ := Outcome.map_eq_ok.mp hrecords
  obtain ⟨other, hstands, hmeans, -⟩ := exists_standsIn_of_readTable htable
  obtain ⟨behind, hother⟩ := hstands.reads
  rw [hread] at hother
  cases hother
  exact ⟨hstands, hmeans⟩

/-- The same records are read of a table in another order, so each is still found under its id and
its name. -/
theorem load_reorder {table : TypeTable} {tail : Bytes}
    (hstands : table.StandsIn (table.toBytes .host ++ tail))
    (hmeans : List.Forall₂ (TableEntry.Describes (table.toBytes .host ++ tail) copies)
      table.entries records)
    (hids : (records.map (·.id)).Nodup) (hnames : (records.map (·.name.text)).Nodup)
    (hbehind : ∀ offset ∈ table.nameOffsets, (table.toBytes .host).length ≤ offset)
    {order : List TableEntry} (horder : order.Perm table.entries) (tag later : UInt64) :
    ∃ permuted,
      load ((TypeTable.mk order).toBytes .host ++ tail) ⟨copies, .raw⟩ later = .ok permuted ∧
      permuted.SameTypes (ofRecords table.entries.length records tag) := by
  -- The names are behind the table, where they were.
  have hkeeps : ∀ offset ∈ table.nameOffsets, (table.toBytes .host ++ tail).KeepsTextAt
      ((TypeTable.mk order).toBytes .host ++ tail) offset := by
    intro offset hmem
    exact Bytes.keepsTextAt_behind (TypeTable.length_toBytes_of_perm .host horder) tail
      (hbehind offset hmem)
  -- Each entry describes the record that it described before.
  obtain ⟨others, hdescribed, hothers⟩ := List.perm_comp_forall₂ horder hmeans
  have hpermuted := hstands.reorder horder hkeeps
  have hcarried := TypeTable.describes_carry hdescribed fun offset hmem =>
    hkeeps offset ((TypeTable.mem_nameOffsets_of_perm horder).mp hmem)
  have hload := load_of_describes hpermuted hcarried later
  have hotherIds := hpermuted.id_le hcarried
  have hlength : (TypeTable.mk order).entries.length = table.entries.length := horder.length_eq
  rw [hlength] at hload hotherIds
  refine ⟨_, hload, ?_⟩
  exact sameTypes_ofRecords hotherIds (hstands.id_le hmeans) (lastWith?_perm hids hothers)
    (lastWith?_perm hnames hothers) later tag

/-- The blocks of a table's entries may change places: the payload is accepted as before, and has
the same types. The empty payload has no table, and so no blocks. -/
theorem load_permuted {payload tail : Bytes} {table : TypeTable}
    (hload : load payload ⟨copies, .raw⟩ tag = .ok registry)
    (hread : TypeTable.read? .host payload = some (table, tail))
    (hentries : entries payload ⟨copies, .raw⟩ = .ok records)
    (hids : (records.map (·.id)).Nodup) (hnames : (records.map (·.name.text)).Nodup)
    (hbehind : ∀ offset ∈ table.nameOffsets, (table.toBytes .host).length ≤ offset)
    {blocks : List Bytes} (hblocks : blocks.Perm (table.entries.map (TableEntry.toBytes .host)))
    (later : UInt64) :
    ∃ permuted,
      load (payload.take hostWidth ++ blocks.flatten ++ tail) ⟨copies, .raw⟩ later = .ok permuted ∧
      permuted.SameTypes registry := by
  obtain ⟨hstands, hmeans⟩ := describes_of_entries hread hentries
  cases hload.symm.trans (load_of_describes hstands hmeans tag)
  obtain ⟨-, rfl⟩ := (TypeTable.reads .host payload table tail).mp hread
  obtain ⟨order, horder, hfront⟩ := TypeTable.exists_order_of_blocks hblocks
  have hcount : (table.toBytes .host ++ tail).take hostWidth =
      Target.host.ofNat table.entries.length := by
    rw [TypeTable.toBytes, List.append_assoc]
    exact List.take_left' (Target.length_ofNat ..)
  rw [hcount, hfront]
  exact load_reorder hstands hmeans hids hnames hbehind horder tag later

/-- A struct with a field of the type that comes after it. -/
def forwardTable : TypeTable :=
  ⟨[⟨1, 103, 4, .struct [⟨103, 0, 0, 0, 0, 2⟩]⟩, ⟨2, 105, 4, .base⟩]⟩

def forwardNames : Bytes := Bytes.ofString "a" ++ [0] ++ (Bytes.ofString "b" ++ [0])

def forwardRecords : List TypeRecord :=
  [(TypeRecord.withMembers ⟨1⟩ ⟨"a", false⟩ 4 .struct 1).pushFields
      [⟨⟨"a", false⟩, ⟨2⟩, 0, 0, 0, false⟩],
    .withMembers ⟨2⟩ ⟨"b", false⟩ 4 .base 0]

/-- A type may come before or after the struct that has a field of it. -/
theorem load_permuted_forward :
    ∃ registry permuted,
      load (forwardTable.toBytes .host ++ forwardNames) ⟨false, .raw⟩ 1 = .ok registry ∧
      load (Target.host.ofNat 2 ++ (TableEntry.toBytes .host ⟨2, 105, 4, .base⟩ ++
        TableEntry.toBytes .host ⟨1, 103, 4, .struct [⟨103, 0, 0, 0, 0, 2⟩]⟩) ++ forwardNames)
        ⟨false, .raw⟩ 2 = .ok permuted ∧
      permuted.SameTypes registry := by
  have hload : load (forwardTable.toBytes .host ++ forwardNames) ⟨false, .raw⟩ 1 =
      .ok (ofRecords 2 forwardRecords 1) := by decide +kernel
  have hread : TypeTable.read? .host (forwardTable.toBytes .host ++ forwardNames) =
      some (forwardTable, forwardNames) := by decide +kernel
  have hentries : entries (forwardTable.toBytes .host ++ forwardNames) ⟨false, .raw⟩ =
      .ok forwardRecords := by decide +kernel
  have hblocks : [TableEntry.toBytes .host ⟨2, 105, 4, .base⟩,
      TableEntry.toBytes .host ⟨1, 103, 4, .struct [⟨103, 0, 0, 0, 0, 2⟩]⟩].Perm
      (forwardTable.entries.map (TableEntry.toBytes .host)) := .swap _ _ _
  obtain ⟨permuted, hpermuted, hsame⟩ := load_permuted hload hread hentries (by decide)
    (by decide) (by decide +kernel) hblocks 2
  exact ⟨_, permuted, hload, hpermuted, hsame⟩

end Registry

end TypeAtlas
