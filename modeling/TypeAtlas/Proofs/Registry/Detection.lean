import TypeAtlas.Proofs.Registry.Truncation

/-!
# Bare blobs where a header is looked for

The letters of the magic are the low bytes of a count, and a table with so many entries is very
long. So no shorter payload that is accepted bare starts with the magic, and looking for a header
finds none. From that length on there are payloads that the two framings read differently.
-/

namespace TypeAtlas

/-! ## A table of any length -/

namespace TypeTable

/-- Base types that take the last byte of the count for their name. -/
def unnamed (count : Nat) : TypeTable := ⟨List.replicate count ⟨0, 7, 0, .base⟩⟩

@[simp] theorem length_entries_unnamed (count : Nat) : (unnamed count).entries.length = count :=
  List.length_replicate

theorem length_unnamed (count : Nat) :
    ((unnamed count).toBytes .host).length = hostWidth + count * entryLeast := by
  have hentry : ((TableEntry.mk 0 7 0 .base).toBytes .host).length = entryLeast := by decide
  rw [toBytes, List.length_append, Target.length_ofNat, unnamed, List.flatMap_replicate,
    List.length_flatten, List.map_replicate, List.sum_replicate, hentry]
  rfl

/-- The bytes of a count, least significant first, with what follows it. -/
theorem toBytes_unnamed (count : Nat) :
    ∃ behind, (unnamed count).toBytes .host = Bytes.digits hostWidth count ++ behind :=
  ⟨(unnamed count).entries.flatMap (TableEntry.toBytes .host),
    by rw [toBytes, length_entries_unnamed]; rfl⟩

/-- As long as the last byte of the count is a NUL, it closes the empty name. -/
theorem standsIn_unnamed {count : Nat} (h : count < 72057594037927936) :
    (unnamed count).StandsIn ((unnamed count).toBytes .host) := by
  have hentry : ∀ entry ∈ (unnamed count).entries, entry = ⟨0, 7, 0, .base⟩ :=
    fun entry hmem => List.eq_of_mem_replicate hmem
  have hfits : ∀ number ≤ 7, Target.host.Fits number :=
    fun number hle => Nat.lt_of_le_of_lt hle (by decide)
  constructor
  · refine ⟨[], (reads .host _ _ _).mpr ⟨⟨?_, ?_⟩, (List.append_nil _).symm⟩⟩
    · rw [length_entries_unnamed]
      exact h.trans (by decide)
    · intro entry hmem
      rw [hentry entry hmem]
      exact ⟨hfits 0 (Nat.zero_le 7), hfits 7 (Nat.le_refl 7), hfits 0 (Nat.zero_le 7), trivial⟩
  · intro entry hmem
    rw [hentry entry hmem]
    exact Nat.zero_le _
  · intro entry hmem id hid
    rw [hentry entry hmem] at hid
    cases hid
  · intro offset hoffset
    obtain ⟨entry, hmem, hin⟩ := List.mem_flatMap.mp hoffset
    rw [hentry entry hmem] at hin
    have hseven : offset = 7 := by simpa [TableShape.nameOffsets] using hin
    have hlast : count / 256 / 256 / 256 / 256 / 256 / 256 / 256 = 0 := by omega
    obtain ⟨behind, hbytes⟩ := toBytes_unnamed count
    refine ⟨"", by decide, behind, ?_⟩
    rw [hseven, hbytes]
    simp [hostWidth, Bytes.digits, hlast]
    rfl

end TypeTable

namespace Registry

theorem load_unnamed {count : Nat} (h : count < 72057594037927936) (copies : Bool)
    (tag : UInt64) :
    ∃ registry, load ((TypeTable.unnamed count).toBytes .host) ⟨copies, .raw⟩ tag = .ok registry :=
  (load_raw_accepts _ copies tag).1.mpr (.inr ⟨_, TypeTable.standsIn_unnamed h⟩)

/-! ## Below the bound -/

variable {bytes : Bytes} {copies : Bool} {tag : UInt64} {registry : Registry}

theorem take_ne_magic_of_load_raw (hsize : bytes.length < 31991924883)
    (h : load bytes ⟨copies, .raw⟩ tag = .ok registry) : bytes.take 4 ≠ headerMagic := by
  intro hmagic
  rcases load_raw_eq_ok_iff.mp h with ⟨hempty, -⟩ | ⟨table, -, hstands, -⟩
  · rw [hempty] at hmagic
    cases hmagic
  · obtain ⟨behind, hread⟩ := hstands.reads
    have hlength := TypeTable.length_of_read? hread
    obtain ⟨-, rfl⟩ := (TypeTable.reads .host bytes table behind).mp hread
    have hlong := TypeTable.le_length_of_magic hmagic
    rw [show hostWidth + Bytes.value headerMagic * entryLeast = 31991924883 by decide] at hlong
    omega

/-- Under another tag the types are the same. -/
theorem load_raw_retagged (h : load bytes ⟨copies, .raw⟩ tag = .ok registry) (later : UInt64) :
    ∃ again, load bytes ⟨copies, .raw⟩ later = .ok again ∧ again.SameTypes registry := by
  rcases load_raw_eq_ok_iff.mp h with ⟨rfl, rfl⟩ | ⟨table, records, hstands, hmeans, rfl⟩
  · exact ⟨empty later, rfl, rfl, fun _ => rfl, fun _ => rfl⟩
  · have hids := hstands.id_le hmeans
    refine ⟨_, load_of_describes hstands hmeans later, ?_⟩
    exact sameTypes_ofRecords hids hids (fun _ => rfl) (fun _ => rfl) later tag

/-- A bare blob below the bound does not start with the magic, and loads as well, with the same
types, where a header is looked for. -/
theorem load_detect_of_load_raw {bytes : Bytes} {copies : Bool} {tag : UInt64}
    {registry : Registry} (hsize : bytes.length < 31991924883)
    (h : load bytes ⟨copies, .raw⟩ tag = .ok registry) (later : UInt64) :
    bytes.take 4 ≠ headerMagic ∧
    ∃ detected, load bytes ⟨copies, .detect⟩ later = .ok detected ∧
      detected.SameTypes registry := by
  have hmagic := take_ne_magic_of_load_raw hsize h
  refine ⟨hmagic, ?_⟩
  rw [load_of_payload (Framing.payload_detect_of_ne hmagic)]
  exact load_raw_retagged h later

/-- A table whose count has three letters of the magic as its low bytes. -/
theorem load_detect_of_load_raw_unnamed :
    ∃ bytes registry detected, bytes.take 3 = headerMagic.take 3 ∧
      bytes.length < 31991924883 ∧ load bytes ⟨true, .raw⟩ 1 = .ok registry ∧
      load bytes ⟨true, .detect⟩ 2 = .ok detected ∧ detected.SameTypes registry := by
  obtain ⟨registry, hload⟩ := load_unnamed (show 4608579 < 72057594037927936 by decide) true 1
  obtain ⟨behind, hbytes⟩ := TypeTable.toBytes_unnamed 4608579
  have hsize : ((TypeTable.unnamed 4608579).toBytes .host).length < 31991924883 := by
    rw [TypeTable.length_unnamed]
    decide
  obtain ⟨-, detected, hdetected, hsame⟩ := load_detect_of_load_raw hsize hload 2
  refine ⟨_, registry, detected, ?_, hsize, hload, hdetected, hsame⟩
  rw [hbytes]
  rfl

/-! ## At the bound -/

/-- The bound is the least: a table of just that length is accepted bare, but opens with the magic
of a header that is refused. -/
theorem exists_load_raw_of_magic (copies : Bool) (tag : UInt64) :
    ∃ bytes : Bytes, bytes.length = 31991924883 ∧
      (∃ registry, load bytes ⟨copies, .raw⟩ tag = .ok registry) ∧
      load bytes ⟨copies, .detect⟩ tag = .error (.blob (.badHeader (.foreignVersion 0))) := by
  have hsmall : Bytes.value headerMagic < 72057594037927936 := by decide
  obtain ⟨behind, hbytes⟩ := TypeTable.toBytes_unnamed (Bytes.value headerMagic)
  have hdigits : Bytes.digits hostWidth (Bytes.value headerMagic) =
      headerMagic ++ [0, 0, 0, 0] := by decide
  refine ⟨_, ?_, load_unnamed hsmall copies tag, ?_⟩
  · rw [TypeTable.length_unnamed]
    decide
  · apply load_of_payload_error
    rw [hbytes, hdigits]
    rfl

end Registry

end TypeAtlas
