import TypeAtlas.Proofs.Blob.Framing
import TypeAtlas.Proofs.Registry.Surroundings
import TypeAtlas.Proofs.Registry.TakenIds

/-!
# Bytes behind a blob

Bytes that are put behind an accepted blob change nothing. The header is found at the front or not
at all, the counts have more room than they need, and every name still ends at its first NUL.
-/

namespace TypeAtlas.Registry

variable {copies : Bool} {tag later : UInt64} {registry : Registry}

theorem load_raw_append {payload : Bytes} (h : load payload ⟨copies, .raw⟩ tag = .ok registry)
    (hne : payload ≠ []) (more : Bytes) (later : UInt64) :
    ∃ longer, load (payload ++ more) ⟨copies, .raw⟩ later = .ok longer ∧
      longer.SameTypes registry := by
  rcases load_raw_eq_ok_iff.mp h with ⟨hempty, -⟩ | ⟨table, records, hstands, hmeans, rfl⟩
  · exact absurd hempty hne
  · have hlonger : List.Forall₂ (TableEntry.Describes (payload ++ more) copies)
        table.entries records :=
      TypeTable.describes_carry hmeans fun offset _ => payload.keepsTextAt_append more offset
    have hids := hstands.id_le hmeans
    refine ⟨_, load_of_describes (hstands.append more) hlonger later, ?_⟩
    exact sameTypes_ofRecords hids hids (fun _ => rfl) (fun _ => rfl) later tag

/-- Whatever is put behind an accepted blob, it is accepted and has the same types. -/
theorem load_append {bytes payload : Bytes} {options : LoadOptions} {tag : UInt64}
    {registry : Registry} (h : load bytes options tag = .ok registry)
    (hpayload : options.framing.payload bytes = .ok payload) (hne : payload ≠ [])
    (more : Bytes) (later : UInt64) :
    ∃ longer, load (bytes ++ more) options later = .ok longer ∧ longer.SameTypes registry := by
  obtain ⟨copies, framing⟩ := options
  rw [load_of_payload hpayload] at h
  have hcount := hostWidth_le_of_load_raw h hne
  have hmagic : headerMagic.length ≤ bytes.length := by
    have hle := Framing.length_payload_le hpayload
    have hword : headerMagic.length ≤ hostWidth := by decide
    omega
  rw [load_of_payload (Framing.payload_append hpayload hmagic more)]
  exact load_raw_append h hne more later

/-- A header is still found in front, and the name that the last text closes is still its own. -/
theorem load_append_renamed :
    ∃ registry longer,
      load (Header.host.toBytes ++ renamed) .standard 1 = .ok registry ∧
      LoadOptions.standard.framing.payload (Header.host.toBytes ++ renamed) = .ok renamed ∧
      renamed ≠ [] ∧
      load (Header.host.toBytes ++ renamed ++ [0x43, 0]) .standard 2 = .ok longer ∧
      longer.SameTypes registry := by
  have hload : load (Header.host.toBytes ++ renamed) .standard 1 =
      .ok (ofRecords 2 renamedRecords 1) := by decide +kernel
  have hpayload : LoadOptions.standard.framing.payload (Header.host.toBytes ++ renamed) =
      .ok renamed := Framing.payload_header (by decide) renamed
  have hne : renamed ≠ [] := by decide
  obtain ⟨longer, hlonger, hsame⟩ := load_append hload hpayload hne [0x43, 0] 2
  exact ⟨_, longer, hload, hpayload, hne, hlonger, hsame⟩

end TypeAtlas.Registry
