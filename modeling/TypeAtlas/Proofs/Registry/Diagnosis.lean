import TypeAtlas.Proofs.Blob.Framing
import TypeAtlas.Proofs.Blob.TableLayout
import TypeAtlas.Proofs.Registry.Acceptance
import TypeAtlas.Registry.Diagnosis

/-!
# Load errors are true

A reader that fails does so at the place of the cursor, and reports what stands there. Along with
the cursor goes what has been passed: the count of the table, the entries that were read and the
head of the one that is being read. So whichever read fails, the payload shows what is reported.
-/

namespace TypeAtlas

/-! ## Places of a cursor -/

/-- A cursor over a payload stands at a position of it. -/
structure Cursor.At (cursor : Cursor) (payload : Bytes) (position : Nat) : Prop where
  content_eq : cursor.content = payload
  offset_eq : cursor.offset = position
  within : position ≤ payload.length

namespace Cursor

variable {cursor next : Cursor} {payload bytes : Bytes} {position : Nat}

theorem At.length_eq (h : cursor.At payload position) : cursor.length = payload.length := by
  rw [← cursor.length_content, h.content_eq]

theorem At.rest_eq (h : cursor.At payload position) : cursor.rest = payload.drop position := by
  rw [rest, h.content_eq, h.offset_eq]

/-- What is passed over lies at the position, and the next position is behind it. -/
theorem Passes.at (h : cursor.Passes bytes next) (hat : cursor.At payload position) :
    next.At payload (position + bytes.length) := by
  have hlength := h.1.length_le
  rw [hat.rest_eq, List.length_drop] at hlength
  refine ⟨h.content_eq.trans hat.content_eq, ?_, ?_⟩
  · rw [h.2, advance, hat.offset_eq]
  · have hwithin := hat.within
    omega

theorem Passes.at_word {number : Nat} (h : cursor.Passes (Target.host.ofNat number) next)
    (hat : cursor.At payload position) : next.At payload (position + 8) := by
  have hnext := h.at hat
  rwa [Target.length_ofNat] at hnext

theorem Passes.wordAt {value : UInt64} (h : cursor.Passes (Target.host.ofNat value.toNat) next)
    (hat : cursor.At payload position) : payload.WordAt position value.toNat := by
  have hnext := h.at_word hat
  obtain ⟨tail, htail⟩ := h.1
  rw [hat.rest_eq] at htail
  refine ⟨hnext.within, ?_⟩
  have hlength : (Target.host.ofNat value.toNat).length = hostWidth := Target.length_ofNat ..
  rw [← htail, List.take_left' hlength, Target.ofNat]
  exact (Bytes.toWord_ofWord ..).trans (Nat.mod_eq_of_lt value.toNat_lt)

theorem Passes.getElem?_eq {byte : UInt8} (h : cursor.Passes [byte] next)
    (hat : cursor.At payload position) : payload[position]? = some byte := by
  obtain ⟨tail, htail⟩ := h.1
  rw [← List.head?_drop, ← hat.rest_eq, ← htail]
  rfl

/-! ## Faults of single reads -/

theorem readNumber_shownBy {width : Nat} {fault : BlobError}
    (h : cursor.readNumber width = .error fault) (hat : cursor.At payload position) :
    fault.ShownBy payload := by
  have hbytes := Outcome.map_eq_error.mp h
  rw [readBytes_eq, hat.content_eq, hat.offset_eq] at hbytes
  split at hbytes
  · cases hbytes
  · next hout =>
      cases hbytes
      exact ⟨hat.within, Nat.lt_of_not_le hout⟩

theorem nameAt_shownBy {offset : Nat} {fault : BlobError} (hcontent : cursor.content = payload)
    (hword : payload.WordAt position offset) (h : cursor.nameAt offset = .error fault) :
    fault.ShownBy payload := by
  rw [nameAt_eq, hcontent] at h
  split at h
  · next hout =>
      cases h
      exact ⟨⟨position, hword⟩, rfl, hout⟩
  · next hin =>
      split at h
      · next hzero =>
          split at h
          · cases h
          · next hnone =>
              cases h
              refine ⟨⟨position, hword⟩, List.contains_iff_mem.mp hzero, ?_⟩
              intro text htext
              rw [← htext, Bytes.toString?_ofString] at hnone
              cases hnone
      · next hopen =>
          cases h
          refine ⟨⟨position, hword⟩, Nat.le_of_not_lt hin, ?_⟩
          exact fun hmem => hopen (List.contains_iff_mem.mpr hmem)

theorem readName_shownBy {fault : BlobError} (h : cursor.readName = .error fault)
    (hat : cursor.At payload position) : fault.ShownBy payload := by
  rcases Outcome.bind_eq_error.mp h with hword | ⟨⟨offset, behind⟩, hword, hrest⟩
  · exact readNumber_shownBy (Outcome.map_eq_error.mp hword) hat
  · have hpass := readWord_eq_ok_iff.mp hword
    rcases Outcome.bind_eq_error.mp hrest with hname | ⟨name, -, hpure⟩
    · exact nameAt_shownBy (hpass.at hat).content_eq (hpass.wordAt hat) hname
    · cases hpure

/-- A name that is read stands where the word at the cursor says. -/
theorem nameAt_of_readName {name : Name} (h : cursor.readName = .ok (name, next))
    (hat : cursor.At payload position) :
    payload.NameAt position name.text ∧ next.At payload (position + 8) := by
  obtain ⟨offset, hpass, htext, -⟩ := readName_eq_ok_iff.mp h
  rw [hat.content_eq] at htext
  exact ⟨⟨offset.toNat, hpass.wordAt hat, htext⟩, hpass.at_word hat⟩

end Cursor

namespace Registry

variable {payload : Bytes} {cursor : Cursor} {position : Nat}

/-! ## Steps that report what is so -/

/-- Whatever the step fails with is shown by the payload. -/
def Reports (payload : Bytes) (step : Except LoadError α) : Prop :=
  ∀ error, step = .error error → error.ShownBy payload

theorem reports_ok (value : α) : Reports payload (.ok value) := nofun

theorem reports_throw {error : LoadError} (h : error.ShownBy payload) :
    Reports payload (throw error : Except LoadError α) := by
  intro other heq
  cases heq
  exact h

theorem Reports.bind {step : Except LoadError α} {next : α → Except LoadError β}
    (h : Reports payload step) (hnext : ∀ value, step = .ok value → Reports payload (next value)) :
    Reports payload (step >>= next) := by
  intro error herror
  rcases Outcome.bind_eq_error.mp herror with hstep | ⟨value, hstep, hrest⟩
  · exact h error hstep
  · exact hnext value hstep error hrest

theorem reports_reading {step : Except BlobError α}
    (h : ∀ fault, step = .error fault → fault.ShownBy payload) :
    Reports payload (reading step) := by
  cases step with
  | ok value => exact reports_ok value
  | error fault => exact reports_throw (h fault rfl)

/-- Words, halves, bytes and flags are all read as numbers. -/
theorem reports_readNumber {width : Nat} {f : Nat × Cursor → α} (hat : cursor.At payload position) :
    Reports payload (reading ((cursor.readNumber width).map f)) :=
  reports_reading fun _ h => Cursor.readNumber_shownBy (Outcome.map_eq_error.mp h) hat

theorem reports_readName (hat : cursor.At payload position) :
    Reports payload (reading cursor.readName) :=
  reports_reading fun _ h => Cursor.readName_shownBy h hat

/-- Where a word is read, it stands. -/
theorem wordAt_of_readWord {value : UInt64} {next : Cursor}
    (h : reading cursor.readWord = .ok (value, next)) (hat : cursor.At payload position) :
    payload.WordAt position value.toNat ∧ next.At payload (position + 8) := by
  have hpass := Cursor.readWord_eq_ok_iff.mp (reading_eq_ok_iff.mp h)
  exact ⟨hpass.wordAt hat, hpass.at_word hat⟩

/-! ## Repeated reads -/

/-- A repeated read fails where one of the reads does, once those before it are done. -/
theorem reports_readMany {read : Cursor → Except LoadError (α × Cursor)} {count : Nat}
    (h : ∀ index < count, ∀ values next, readMany read index cursor = .ok (values, next) →
      Reports payload (read next)) :
    Reports payload (readMany read count cursor) := by
  induction count generalizing cursor with
  | zero => exact reports_ok _
  | succ count ih =>
      apply (h 0 (Nat.succ_pos count) [] cursor rfl).bind
      intro ⟨first, next⟩ hfirst
      have hrest : Reports payload (readMany read count next) := by
        apply ih
        intro index hindex values behind hvalues
        apply h (index + 1) (Nat.succ_lt_succ hindex) (first :: values) behind
        exact Outcome.bind_eq_ok.mpr
          ⟨(first, next), hfirst, Outcome.bind_eq_ok.mpr ⟨(values, behind), hvalues, rfl⟩⟩
      exact hrest.bind fun _ _ => reports_ok _

/-! ## Members -/

/-- Fields take up one length, so the place of each is known from those before it. -/
theorem length_flatMap_fields (listed : List TableField) :
    (listed.flatMap (TableField.toBytes .host)).length = listed.length * fieldLength := by
  simp [List.length_flatMap, Schema.length_tableField, Target.host, WordWidth.bytes, fieldLength]

theorem reports_readField {typeCount : Nat} {typeName : String}
    (hfield : payload.FieldAt typeCount typeName position) (hat : cursor.At payload position) :
    Reports payload (readField typeCount typeName cursor) := by
  apply (reports_readName hat).bind
  intro ⟨name, atFlag⟩ hname
  obtain ⟨hshown, hatFlag⟩ := Cursor.nameAt_of_readName (reading_eq_ok_iff.mp hname) hat
  apply (reports_readNumber hatFlag).bind
  intro ⟨flag, atDepth⟩ hflag
  obtain ⟨byte, -, passFlag⟩ := Cursor.readFlag_eq_ok_iff.mp (reading_eq_ok_iff.mp hflag)
  have hatDepth := passFlag.at hatFlag
  apply (reports_readNumber hatDepth).bind
  intro ⟨depth, atOffset⟩ hdepth
  have hatOffset := (Cursor.readHalf_eq_ok_iff.mp (reading_eq_ok_iff.mp hdepth)).at hatDepth
  apply (reports_readNumber hatOffset).bind
  intro ⟨offset, atArray⟩ hoffset
  have hatArray := (wordAt_of_readWord hoffset hatOffset).2
  apply (reports_readNumber hatArray).bind
  intro ⟨array, atId⟩ harray
  have hatId := (wordAt_of_readWord harray hatArray).2
  apply (reports_readNumber hatId).bind
  intro ⟨id, behind⟩ hid
  have hword := (wordAt_of_readWord hid hatId).1
  by_cases hout : typeCount < id.toNat
  · simp only [if_pos hout]
    rw [Target.length_half] at hword
    exact reports_throw ⟨hout, position, hfield, hshown, hword⟩
  · simp only [if_neg hout]
    exact reports_ok _

theorem reports_readEnumerator (hat : cursor.At payload position) :
    Reports payload (readEnumerator cursor) := by
  apply (reports_readName hat).bind
  intro ⟨name, atValue⟩ hname
  have hatValue := (Cursor.nameAt_of_readName (reading_eq_ok_iff.mp hname) hat).2
  apply (reports_readNumber hatValue).bind
  exact fun _ _ => reports_ok _

/-- A count that is refused is the word at the cursor, and what remains lies behind it. -/
theorem reports_counted {least : Nat} {fault : Nat → Nat → LoadError}
    (hat : cursor.At payload position)
    (hfault : ∀ count, payload.WordAt position count →
      payload.length - (position + 8) < count * least →
      (fault count (payload.length - (position + 8))).ShownBy payload) :
    Reports payload (do
      let (count, cursor) ← reading cursor.readWord
      if cursor.hasRoom count.toNat least then return (count.toNat, cursor)
      else throw (fault count.toNat cursor.remaining)) := by
  apply (reports_readNumber hat).bind
  intro ⟨count, next⟩ hcount
  obtain ⟨hword, hatNext⟩ := wordAt_of_readWord hcount hat
  have hremaining : next.remaining = payload.length - (position + 8) := by
    rw [Cursor.remaining, hatNext.length_eq, hatNext.offset_eq]
  by_cases hroom : next.hasRoom count.toNat least = true
  · simp only [if_pos hroom]
    exact reports_ok _
  · simp only [if_neg hroom]
    rw [hremaining]
    apply reports_throw (hfault count.toNat hword _)
    rw [← hremaining]
    exact Nat.lt_of_not_le fun hle => hroom (decide_eq_true hle)

theorem countAt_of_counted {counted : Cursor → Except LoadError (Nat × Cursor)} {least : Nat}
    (h : CountsWith counted least) {next : Cursor} {count : Nat}
    (hcount : counted cursor = .ok (count, next)) (hat : cursor.At payload position) :
    payload.WordAt position count ∧ next.At payload (position + 8) := by
  obtain ⟨hfits, hpass, -⟩ := (h cursor count next).mp hcount
  have hword := Cursor.readWord_of_passes hfits hpass
  have hvalue := wordAt_of_readWord (reading_eq_ok_iff.mpr hword) hat
  rwa [UInt64.toNat_ofNat_of_lt' hfits] at hvalue

/-! ## Entries -/

/-- The members of an entry whose head has been read, from its count on. -/
theorem reports_readMembers {typeCount start : Nat} {id : TypeId} {name : Name} {size : UInt64}
    {kind : TypeKind} (hentry : payload.EntryAt typeCount start)
    (hhead : payload.HeadAt start kind name.text) (hat : cursor.At payload (start + 25)) :
    Reports payload (readMembers typeCount id name size kind cursor) := by
  have hcount : Reports payload (readCount cursor name.text kind.memberLength) := by
    apply reports_counted hat
    intro count hword hroom
    exact ⟨typeCount, start, kind, hentry, hhead, hword, rfl, hroom⟩
  have hfields : kind.hasFields = true → ∀ count next,
      readCount cursor name.text fieldLength = .ok (count, next) →
        Reports payload (readMany (readField typeCount name.text) count next) := by
    intro hkind count next hread
    obtain ⟨hword, hatNext⟩ := countAt_of_counted (countsWith_readCount _ _) hread hat
    apply reports_readMany
    intro index hindex values behind hvalues
    obtain ⟨listed, ⟨hlength, -⟩, -, hpass⟩ :=
      (decodes_many (decodes_field typeCount name.text) index _ _ _).mp hvalues
    have hatField := hpass.at hatNext
    rw [length_flatMap_fields, hlength] at hatField
    exact reports_readField ⟨start, kind, count, index, hentry, hhead, hkind, hword, hindex, rfl⟩
      hatField
  cases kind with
  | base => exact reports_ok _
  | struct | union =>
      apply hcount.bind
      intro ⟨count, next⟩ hread
      exact (hfields rfl count next hread).bind fun _ _ => reports_ok _
  | enum =>
      apply hcount.bind
      intro ⟨count, next⟩ hread
      have hatNext := (countAt_of_counted (countsWith_readCount _ _) hread hat).2
      have hmany : Reports payload (readMany readEnumerator count next) := by
        apply reports_readMany
        intro index hindex values behind hvalues
        obtain ⟨listed, -, -, hpass⟩ := (decodes_many decodes_enumerator index _ _ _).mp hvalues
        exact reports_readEnumerator (hpass.at hatNext)
      exact hmany.bind fun _ _ => reports_ok _

theorem reports_readKind {count start : Nat} (hentry : payload.EntryAt count start)
    (hat : cursor.At payload (start + 8)) : Reports payload (readKind cursor) := by
  apply (reports_readNumber hat).bind
  intro ⟨byte, next⟩ hbyte
  cases hkind : TypeKind.ofByte? byte with
  | some kind =>
      simp only [hkind]
      exact reports_ok _
  | none =>
      simp only [hkind]
      have hshown := (Cursor.readByte_eq_ok_iff.mp (reading_eq_ok_iff.mp hbyte)).getElem?_eq hat
      rw [← hat.offset_eq] at hshown
      exact reports_throw
        ⟨hshown, TypeKind.ofByte?_eq_none_iff.mp hkind, count, start, hentry, hat.offset_eq⟩

theorem reports_readType {count start : Nat} (hentry : payload.EntryAt count start)
    (hat : cursor.At payload start) : Reports payload (readType count cursor) := by
  apply (reports_readNumber hat).bind
  intro ⟨id, atKind⟩ hid
  obtain ⟨hword, hatKind⟩ := wordAt_of_readWord hid hat
  by_cases hout : count < id.toNat
  · simp only [if_pos hout]
    exact reports_throw ⟨hout, start, hentry, hword⟩
  · simp only [if_neg hout]
    apply (reports_readKind hentry hatKind).bind
    intro ⟨kind, atName⟩ hkind
    have passKind := readKind_eq_ok_iff.mp hkind
    have hatName := passKind.at hatKind
    apply (reports_readName hatName).bind
    intro ⟨name, atSize⟩ hname
    obtain ⟨hshown, hatSize⟩ := Cursor.nameAt_of_readName (reading_eq_ok_iff.mp hname) hatName
    apply (reports_readNumber hatSize).bind
    intro ⟨size, atMembers⟩ hsize
    have hatMembers := (wordAt_of_readWord hsize hatSize).2
    exact reports_readMembers hentry ⟨passKind.getElem?_eq hatKind, hshown⟩ hatMembers

/-! ## Tables -/

theorem reports_readTable (hat : cursor.At payload 0) : Reports payload (readTable cursor) := by
  have hcount : Reports payload (readTypeCount cursor) := by
    apply reports_counted hat
    intro count hword hroom
    exact ⟨hword, by rw [hostWidth, Nat.zero_add], by rwa [Nat.zero_add] at hroom⟩
  apply hcount.bind
  intro ⟨count, next⟩ hread
  obtain ⟨hword, hatNext⟩ := countAt_of_counted countsWith_readTypeCount hread hat
  have hmany : Reports payload (readMany (readType count) count next) := by
    apply reports_readMany
    intro index hindex values behind hvalues
    obtain ⟨before, ⟨rfl, hvalid⟩, -, hpass⟩ :=
      (decodes_many (decodes_type count) index _ _ _).mp hvalues
    have hstand := hpass.1
    rw [hatNext.rest_eq] at hstand
    have hentry : payload.EntryAt count (0 + 8 + _) :=
      ⟨before, hword, hindex, fun entry hmem => (hvalid entry hmem).1, hstand, rfl⟩
    exact reports_readType hentry (hpass.at hatNext)
  exact hmany.bind fun _ _ => reports_ok _

end Registry

/-! ## Framing -/

namespace Header

variable {framing : Framing} {bytes : Bytes} {fault : BlobError}

theorem ofBytes?_shownByFraming (h : ofBytes? bytes = .error fault) :
    fault.ShownByFraming framing bytes := by
  by_cases hmagic : bytes.take 4 = headerMagic
  · rcases Nat.lt_or_ge bytes.length headerLength with hcut | hwhole
    · rw [ofBytes?_of_lt hmagic hcut] at h
      cases h
      exact ⟨hmagic, hcut, rfl, Nat.add_sub_cancel' (Nat.le_of_lt hcut)⟩
    · rw [ofBytes?_of_le hmagic hwhole] at h
      split at h
      · cases h
      · next htag =>
          cases h
          exact ⟨hmagic, getElem?_eq_getD hwhole (by decide), ofTag?_eq_none_iff.mp htag⟩
  · rw [ofBytes?_of_ne hmagic] at h
    cases h

theorem checkHost_shownByFraming {header : Header} (hheader : ofBytes? bytes = .ok (some header))
    (h : header.checkHost = .error fault) : fault.ShownByFraming framing bytes := by
  obtain ⟨hmagic, hversion, hwidth, horder⟩ := getElem?_of_ofBytes? hheader
  unfold checkHost at h
  split at h
  · next hne =>
      cases h
      exact ⟨hmagic, hversion, hne⟩
  · split at h
    · next hne =>
        cases h
        exact ⟨hmagic, hwidth, hne⟩
    · split at h
      · next hne =>
          cases h
          exact ⟨hmagic, horder, hne⟩
      · cases h

end Header

theorem Framing.payload_shownByFraming {framing : Framing} {bytes : Bytes} {fault : BlobError}
    (hraw : framing ≠ .raw) (h : framing.payload bytes = .error fault) :
    fault.ShownByFraming framing bytes := by
  rw [payload_of_ne_raw hraw] at h
  split at h
  · next heq =>
      cases h
      exact Header.ofBytes?_shownByFraming heq
  · next header heq =>
      split at h
      · next hcheck =>
          cases h
          exact Header.checkHost_shownByFraming heq hcheck
      · cases h
  · next heq =>
      split at h
      · next hframed =>
          cases h
          exact ⟨hframed, Header.take_ne_magic_of_ofBytes? heq⟩
      · cases h

/-! ## Loading -/

namespace Registry

theorem reports_load_raw (payload : Bytes) (copies : Bool) (tag : UInt64) :
    Reports payload (load payload ⟨copies, .raw⟩ tag) := by
  by_cases hempty : payload = []
  · rw [hempty]
    exact reports_ok _
  · rw [load_raw_of_ne_nil hempty]
    have hat : (Cursor.start payload copies).At payload 0 := ⟨rfl, rfl, Nat.zero_le _⟩
    exact (reports_readTable hat).bind fun _ _ => reports_ok _

/-- A load that fails tells the truth: what it reports is shown by the payload behind the framing,
or by the framing that it did not get past. -/
theorem load_error_true {bytes : Bytes} {options : LoadOptions} {tag : UInt64}
    {error : LoadError} (h : load bytes options tag = .error error) :
    error.TrueOf options.framing bytes := by
  obtain ⟨copies, framing⟩ := options
  cases hpayload : framing.payload bytes with
  | error fault =>
      have hraw : framing ≠ .raw := by
        intro hraw
        rw [hraw] at hpayload
        cases hpayload
      rw [load_of_payload_error hpayload] at h
      cases h
      exact .inr ⟨hraw, fault, rfl, Framing.payload_shownByFraming hraw hpayload⟩
  | ok payload =>
      rw [load_of_payload hpayload] at h
      exact .inl ⟨payload, hpayload, reports_load_raw payload copies tag error h⟩

/-- Two types behind a header, and a field of the second one that points to a third. -/
def misdirected : Bytes :=
  Header.host.toBytes ++
    TypeTable.toBytes .host
      ⟨[⟨1, 103, 4, .base⟩, ⟨2, 105, 8, .struct [⟨103, 0, 0, 0, 0, 3⟩]⟩]⟩ ++
    (Bytes.ofString "a" ++ [0]) ++ (Bytes.ofString "b" ++ [0])

theorem load_error_true_misdirected :
    load misdirected .standard 0 = .error (.fieldTypeOutOfRange "b" "a" 3 2) ∧
    (LoadError.fieldTypeOutOfRange "b" "a" 3 2).TrueOf .detect misdirected := by
  have hload : load misdirected .standard 0 = .error (.fieldTypeOutOfRange "b" "a" 3 2) := by
    decide +kernel
  exact ⟨hload, load_error_true hload⟩

end Registry

end TypeAtlas
