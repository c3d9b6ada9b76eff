import TypeAtlas.Proofs.Blob.Framing
import TypeAtlas.Proofs.Registry.Decoding
import TypeAtlas.Registry.Audit

/-!
# Safe reads

An audited step is safe when it ends as the plain one does and every demand on the way is met.
Safety is kept by sequencing, so that the reads of a load are safe one by one. What a read
needs of the memory is what it has checked itself, up to the reads of a fixed width.
-/

namespace TypeAtlas.Audited

structure Safe (step : Audited α) (limit : Nat) (outcome : Except LoadError α) : Prop where
  outcome_eq : step.outcome = outcome
  met : ∀ demand ∈ step.demands, demand.Met limit

variable {limit : Nat}

theorem safe_plain (step : Except LoadError α) : (plain step).Safe limit step :=
  ⟨rfl, by simp [plain]⟩

theorem safe_pure (value : α) : (pure value : Audited α).Safe limit (pure value) :=
  ⟨rfl, by simp [pure]⟩

theorem Safe.bind {step : Audited α} {outcome : Except LoadError α} {next : α → Audited β}
    {further : α → Except LoadError β} (h : step.Safe limit outcome)
    (hnext : ∀ value, outcome = .ok value → (next value).Safe limit (further value)) :
    (step >>= next).Safe limit (outcome >>= further) := by
  obtain ⟨demands, result⟩ := step
  obtain ⟨rfl, hmet⟩ := h
  cases result with
  | error fault => exact ⟨rfl, hmet⟩
  | ok value =>
      have hvalue := hnext value rfl
      refine ⟨hvalue.outcome_eq, ?_⟩
      intro demand hmem
      rcases List.mem_append.mp hmem with hfirst | hlater
      · exact hmet demand hfirst
      · exact hvalue.met demand hlater

theorem Safe.bind_ok {step : Audited α} {value : α} {next : α → Audited β}
    {outcome : Except LoadError β} (h : step.Safe limit (.ok value))
    (hnext : (next value).Safe limit outcome) : (step >>= next).Safe limit outcome := by
  have hbind : (step >>= next).Safe limit ((Except.ok value : Except LoadError α) >>= fun _ => outcome) := by
    apply h.bind
    intro other heq
    cases heq
    exact hnext
  exact hbind

theorem Safe.bind_error {step : Audited α} {fault : LoadError} (h : step.Safe limit (.error fault))
    (next : α → Audited β) : (step >>= next).Safe limit (.error fault) := by
  have hbind : (step >>= next).Safe limit
      ((Except.error fault : Except LoadError α) >>= fun _ => .error fault) := by
    apply h.bind
    intro other heq
    cases heq
  exact hbind

/-- Demands that are met may be made in front of any safe step. -/
theorem Safe.after {demands : List Demand} {next : Audited α} {outcome : Except LoadError α}
    (hmet : ∀ demand ∈ demands, demand.Met limit) (h : next.Safe limit outcome) :
    (demand demands >>= fun _ => next).Safe limit outcome := by
  refine ⟨h.outcome_eq, ?_⟩
  intro demand hmem
  rcases List.mem_append.mp hmem with hfirst | hlater
  · exact hmet demand hfirst
  · exact h.met demand hlater

theorem Safe.after_one {first : Demand} {next : Audited α} {outcome : Except LoadError α}
    (hmet : first.Met limit) (h : next.Safe limit outcome) :
    (demand [first] >>= fun _ => next).Safe limit outcome := by
  apply Safe.after _ h
  intro demand hmem
  rw [List.mem_singleton.mp hmem]
  exact hmet

/-! ## Framing -/

theorem safe_byteAt {bytes : Bytes} {position : Nat} (h : position < bytes.length) :
    (byteAt bytes position).Safe limit (.ok (bytes.getD position 0)) := by
  apply Safe.after_one
  · exact h
  · exact safe_pure _

theorem safe_header (bytes : Bytes) :
    (header bytes).Safe limit (Registry.reading (Header.ofBytes? bytes)) := by
  have hlength : headerMagic.length = 4 := rfl
  unfold header
  by_cases hshort : bytes.length < headerMagic.length
  · have hother : bytes.take 4 ≠ headerMagic := by
      intro heq
      have hlength := congrArg List.length heq
      rw [List.length_take] at hlength
      omega
    rw [if_pos hshort, Header.ofBytes?, if_pos hother]
    exact safe_pure none
  · rw [if_neg hshort]
    apply Safe.after_one
    · exact ⟨Nat.zero_le _, Nat.le_of_not_lt hshort⟩
    · rw [hlength]
      by_cases hmagic : bytes.take 4 = headerMagic
      · rw [if_neg (not_not_intro hmagic)]
        by_cases hcut : bytes.length < headerLength
        · rw [if_pos hcut, Header.ofBytes?_of_lt hmagic hcut]
          exact safe_plain _
        · have hwhole := Nat.le_of_not_lt hcut
          have hin : 8 ≤ bytes.length := hwhole
          rw [if_neg hcut, Header.ofBytes?_of_le hmagic hwhole]
          apply (safe_byteAt (show 6 < bytes.length by omega)).bind_ok
          cases ByteOrder.ofTag? (bytes.getD 6 0) with
          | none =>
              apply (safe_byteAt (show 6 < bytes.length by omega)).bind_ok
              exact safe_plain _
          | some order =>
              apply (safe_byteAt (show 4 < bytes.length by omega)).bind_ok
              apply (safe_byteAt (show 5 < bytes.length by omega)).bind_ok
              exact safe_pure _
      · rw [if_pos hmagic, Header.ofBytes?, if_pos hmagic]
        exact safe_pure none

theorem safe_payload (framing : Framing) (bytes : Bytes) :
    (payload framing bytes).Safe limit (Registry.reading (framing.payload bytes)) := by
  by_cases hraw : framing = .raw
  · subst hraw
    exact safe_pure bytes
  · have hheader : (header bytes).Safe limit (Registry.reading (Header.ofBytes? bytes)) :=
      safe_header bytes
    rw [payload, if_neg hraw, Framing.payload_of_ne_raw hraw]
    cases hfound : Header.ofBytes? bytes with
    | error fault =>
        rw [hfound] at hheader
        exact hheader.bind_error _
    | ok found =>
        rw [hfound] at hheader
        apply hheader.bind_ok
        cases found with
        | none =>
            by_cases hmissing : framing = .framed
            · simp only [if_pos hmissing]
              exact safe_plain _
            · simp only [if_neg hmissing]
              exact safe_pure bytes
        | some header =>
            have hwhole := Header.length_of_ofBytes? hfound
            have hcheck : (plain (Registry.reading header.checkHost)).Safe limit
                (Registry.reading header.checkHost) := safe_plain _
            simp only
            cases hhost : header.checkHost with
            | error fault =>
                rw [hhost] at hcheck
                exact hcheck.bind_error _
            | ok =>
                rw [hhost] at hcheck
                apply hcheck.bind_ok
                apply Safe.after_one
                · exact ⟨hwhole, Nat.le_refl _⟩
                · exact safe_pure _

/-! ## Cursor -/

theorem safe_readBytes (cursor : Cursor) (count : Nat) :
    (readBytes cursor count).Safe limit (Registry.reading (cursor.readBytes count)) := by
  simp only [readBytes, Cursor.readBytes]
  by_cases hin : cursor.offset + count ≤ cursor.length
  · rw [if_pos hin, if_pos hin]
    apply Safe.after_one
    · exact ⟨Nat.le_add_right _ _, hin⟩
    · exact safe_pure _
  · rw [if_neg hin, if_neg hin]
    exact safe_plain _

theorem safe_readNumber (cursor : Cursor) {width : Nat} (hwidth : 0 < width) :
    (readNumber cursor width).Safe limit (Registry.reading (cursor.readNumber width)) := by
  rw [Cursor.readNumber, Registry.reading_map]
  apply (safe_readBytes cursor width).bind
  intro result hread
  obtain ⟨bytes, next⟩ := result
  have hlength := ((Cursor.readBytes_eq_ok_iff hwidth).mp (Registry.reading_eq_ok_iff.mp hread)).1
  apply Safe.after_one
  · exact hlength
  · exact safe_pure _

theorem safe_readByte (cursor : Cursor) :
    (readByte cursor).Safe limit (Registry.reading cursor.readByte) := by
  rw [Cursor.readByte, Registry.reading_map]
  exact (safe_readNumber cursor (by decide)).bind fun _ _ => safe_pure _

theorem safe_readFlag (cursor : Cursor) :
    (readFlag cursor).Safe limit (Registry.reading cursor.readFlag) := by
  rw [Cursor.readFlag, Registry.reading_map]
  exact (safe_readNumber cursor (by decide)).bind fun _ _ => safe_pure _

theorem safe_readHalf (cursor : Cursor) :
    (readHalf cursor).Safe limit (Registry.reading cursor.readHalf) := by
  rw [Cursor.readHalf, Registry.reading_map]
  exact (safe_readNumber cursor (by decide)).bind fun _ _ => safe_pure _

theorem safe_readWord (cursor : Cursor) :
    (readWord cursor).Safe limit (Registry.reading cursor.readWord) := by
  rw [Cursor.readWord, Registry.reading_map]
  exact (safe_readNumber cursor (by decide)).bind fun _ _ => safe_pure _

theorem safe_nameAt (cursor : Cursor) (offset : Nat) :
    (nameAt cursor offset).Safe limit (Registry.reading (cursor.nameAt offset)) := by
  simp only [nameAt, Cursor.nameAt]
  by_cases hout : cursor.length < offset
  · rw [if_pos hout, if_pos hout]
    exact safe_plain _
  · rw [if_neg hout, if_neg hout]
    generalize (cursor.buffer.extract offset).toList = tail
    cases hstop : tail.findIdx? (· == 0) with
    | none =>
        have hopen : ¬ tail.contains 0 = true := by
          intro hzero
          have hnone := List.findIdx?_eq_none_iff.mp hstop 0 (List.contains_iff_mem.mp hzero)
          cases hnone
        rw [if_neg hopen]
        exact safe_plain _
    | some stop =>
        obtain ⟨hlt, hfirst⟩ := List.findIdx?_eq_some_iff_findIdx_eq.mp hstop
        have hclosed : tail.contains 0 = true := by
          have hzero := (List.findIdx?_eq_some_iff_getElem.mp hstop).2.1
          rw [List.contains_iff_mem, ← eq_of_beq hzero]
          exact List.getElem_mem hlt
        have htext : tail.take stop = tail.takeWhile (· != 0) := by
          have hnul : (fun byte : UInt8 => !(byte != 0)) = fun byte => byte == 0 := by
            funext byte
            rw [bne, Bool.not_not]
          rw [List.takeWhile_eq_take_findIdx_not, hnul, hfirst]
        rw [if_pos hclosed]
        apply Safe.after_one
        · exact ⟨Nat.zero_le _, Nat.le_of_lt hlt⟩
        · rw [htext]
          cases Bytes.toString? (tail.takeWhile (· != 0)) with
          | none => exact safe_plain _
          | some text => exact safe_pure _

theorem reading_readName (cursor : Cursor) :
    Registry.reading cursor.readName = (do
      let (offset, next) ← Registry.reading cursor.readWord
      let name ← Registry.reading (next.nameAt offset.toNat)
      return (name, next)) := by
  simp only [Cursor.readName, Registry.reading_bind]
  rfl

theorem safe_readName (cursor : Cursor) :
    (readName cursor).Safe limit (Registry.reading cursor.readName) := by
  rw [reading_readName]
  apply (safe_readWord cursor).bind
  intro word _
  obtain ⟨offset, next⟩ := word
  exact (safe_nameAt next offset.toNat).bind fun _ _ => safe_pure _

end TypeAtlas.Audited
