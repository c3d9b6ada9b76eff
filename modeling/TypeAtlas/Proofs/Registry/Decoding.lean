import Mathlib.Algebra.Order.BigOperators.Group.List
import Mathlib.Algebra.Order.Group.Nat
import TypeAtlas.Proofs.Blob.Passage
import TypeAtlas.Proofs.Blob.Words
import TypeAtlas.Proofs.Registry.Description
import TypeAtlas.Registry.Load

/-!
# What the readers of a table accept

A reader of the type table accepts the bytes of exactly those listed values whose numbers fit
and whose ids lie in the table, and yields what they describe. The checks of a count against
the bytes that are left refuse nothing that a plain reading would accept.
-/

namespace TypeAtlas.Registry

/-- A reader passes over the bytes of a listed value, and yields what the value means in the
payload. -/
def Decodes (read : Cursor → Except LoadError (α × Cursor)) (write : β → Bytes)
    (valid : β → Prop) (means : Bytes → Bool → β → α → Prop) : Prop :=
  ∀ cursor value next,
    read cursor = .ok (value, next) ↔
      ∃ listed, valid listed ∧ means cursor.content cursor.copies listed value ∧
        cursor.Passes (write listed) next

/-! ## Members -/

theorem decodes_field (typeCount : Nat) (typeName : String) :
    Decodes (readField typeCount typeName) (TableField.toBytes .host)
      (fun listed => listed.Fits .host ∧ listed.typeId ≤ typeCount) TableField.Describes := by
  intro cursor field next
  simp only [TableField.toBytes, List.append_assoc, List.cons_append, Cursor.passes_append,
    Cursor.passes_cons_append]
  constructor
  · intro h
    obtain ⟨⟨name, atFlag⟩, hname, h⟩ := Outcome.bind_eq_ok.mp h
    obtain ⟨⟨isConst, atDepth⟩, hflag, h⟩ := Outcome.bind_eq_ok.mp h
    obtain ⟨⟨depth, atOffset⟩, hdepth, h⟩ := Outcome.bind_eq_ok.mp h
    obtain ⟨⟨offset, atArray⟩, hoffset, h⟩ := Outcome.bind_eq_ok.mp h
    obtain ⟨⟨array, atId⟩, harray, h⟩ := Outcome.bind_eq_ok.mp h
    obtain ⟨⟨id, behind⟩, hid, h⟩ := Outcome.bind_eq_ok.mp h
    simp only at h
    split at h
    · cases h
    · next hle =>
        cases h
        obtain ⟨place, hplace, htext, howned⟩ :=
          Cursor.readName_eq_ok_iff.mp (reading_eq_ok_iff.mp hname)
        obtain ⟨byte, hbyte, hpass⟩ := Cursor.readFlag_eq_ok_iff.mp (reading_eq_ok_iff.mp hflag)
        refine ⟨⟨place.toNat, byte, depth, offset.toNat, array.toNat, id.toNat⟩,
          ⟨⟨place.toNat_lt, offset.toNat_lt, array.toNat_lt, id.toNat_lt⟩, Nat.le_of_not_lt hle⟩,
          ⟨htext, howned, hbyte, rfl, rfl, rfl, rfl⟩, ?_⟩
        refine ⟨atFlag, hplace, atDepth, hpass, atOffset, ?_, atArray, ?_, atId, ?_, ?_⟩
        · exact Cursor.readHalf_eq_ok_iff.mp (reading_eq_ok_iff.mp hdepth)
        · exact Cursor.readWord_eq_ok_iff.mp (reading_eq_ok_iff.mp hoffset)
        · exact Cursor.readWord_eq_ok_iff.mp (reading_eq_ok_iff.mp harray)
        · exact Cursor.readWord_eq_ok_iff.mp (reading_eq_ok_iff.mp hid)
  · intro h
    obtain ⟨listed, ⟨⟨hname, hoffset, harray, hid⟩, hle⟩, hmeans, h⟩ := h
    obtain ⟨atFlag, passName, atDepth, passFlag, atOffset, passDepth, atArray, passOffset, atId,
      passArray, passId⟩ := h
    have readsName := Cursor.readName_of_passes hname passName hmeans.name hmeans.owned
    have readsFlag : atFlag.readFlag = .ok (field.isConst, atDepth) :=
      Cursor.readFlag_eq_ok_iff.mpr ⟨listed.flag, hmeans.isConst, passFlag⟩
    have readsDepth : atDepth.readHalf = .ok (field.pointerDepth, atOffset) := by
      rw [hmeans.pointerDepth]
      exact Cursor.readHalf_eq_ok_iff.mpr passDepth
    have readsOffset : atOffset.readWord = .ok (field.offset, atArray) := by
      rw [← hmeans.offset] at passOffset
      exact Cursor.readWord_eq_ok_iff.mpr passOffset
    have readsArray : atArray.readWord = .ok (field.arraySize, atId) := by
      rw [← hmeans.arraySize] at passArray
      exact Cursor.readWord_eq_ok_iff.mpr passArray
    have readsId := Cursor.readWord_of_passes hid passId
    have hin : ¬ typeCount < listed.typeId := Nat.not_lt.mpr hle
    have htype := hmeans.typeId
    obtain ⟨name, typeId, offset, arraySize, pointerDepth, isConst⟩ := field
    simp only at htype
    simp only [readField, readsName, readsFlag, readsDepth, readsOffset, readsArray, readsId,
      reading, bind, Except.bind, if_neg hin, UInt64.toNat_ofNat_of_lt' hid, htype]
    rfl

theorem decodes_enumerator :
    Decodes readEnumerator (TableEnumerator.toBytes .host) (TableEnumerator.Fits .host)
      TableEnumerator.Describes := by
  intro cursor enumerator next
  simp only [TableEnumerator.toBytes, Cursor.passes_append]
  constructor
  · intro h
    obtain ⟨⟨name, atValue⟩, hname, h⟩ := Outcome.bind_eq_ok.mp h
    obtain ⟨⟨value, behind⟩, hvalue, h⟩ := Outcome.bind_eq_ok.mp h
    cases Outcome.pure_eq_ok.mp h
    obtain ⟨place, hplace, htext, howned⟩ :=
      Cursor.readName_eq_ok_iff.mp (reading_eq_ok_iff.mp hname)
    exact ⟨⟨place.toNat, value.toNat⟩, ⟨place.toNat_lt, value.toNat_lt⟩, ⟨htext, howned, rfl⟩,
      atValue, hplace, Cursor.readWord_eq_ok_iff.mp (reading_eq_ok_iff.mp hvalue)⟩
  · intro h
    obtain ⟨listed, ⟨hname, -⟩, hmeans, atValue, passName, passValue⟩ := h
    have readsName := Cursor.readName_of_passes hname passName hmeans.name hmeans.owned
    have readsValue : atValue.readWord = .ok (enumerator.value, next) := by
      rw [← hmeans.value] at passValue
      exact Cursor.readWord_eq_ok_iff.mpr passValue
    simp only [readEnumerator, readsName, readsValue, reading, bind, Except.bind]
    rfl

/-- A listed value is read as often as it is written. -/
theorem decodes_many {read : Cursor → Except LoadError (α × Cursor)} {write : β → Bytes}
    {valid : β → Prop} {means : Bytes → Bool → β → α → Prop}
    (h : Decodes read write valid means) (count : Nat) :
    Decodes (readMany read count) (fun listed => listed.flatMap write)
      (fun listed => listed.length = count ∧ ∀ value ∈ listed, valid value)
      (fun payload copies => List.Forall₂ (means payload copies)) := by
  induction count with
  | zero =>
      intro cursor values next
      constructor
      · intro hread
        cases Outcome.pure_eq_ok.mp hread
        exact ⟨[], ⟨rfl, by simp⟩, .nil, Cursor.passes_nil.mpr rfl⟩
      · intro hread
        obtain ⟨listed, ⟨hlength, -⟩, hmeans, hpass⟩ := hread
        cases List.length_eq_zero_iff.mp hlength
        cases hmeans
        rw [Cursor.passes_nil.mp hpass]
        rfl
  | succ count ih =>
      intro cursor values next
      constructor
      · intro hread
        obtain ⟨⟨first, middle⟩, hfirst, hread⟩ := Outcome.bind_eq_ok.mp hread
        obtain ⟨⟨rest, behind⟩, hrest, hread⟩ := Outcome.bind_eq_ok.mp hread
        cases Outcome.pure_eq_ok.mp hread
        obtain ⟨head, hvalid, hmeans, hpass⟩ := (h _ _ _).mp hfirst
        obtain ⟨tail, ⟨hlength, hall⟩, hmany, hpasses⟩ := (ih _ _ _).mp hrest
        -- Names are read in the whole payload, which is the same at every place of the cursor.
        rw [hpass.content_eq, hpass.copies_eq] at hmany
        refine ⟨head :: tail, ⟨by rw [List.length_cons, hlength], ?_⟩, .cons hmeans hmany, ?_⟩
        · intro value hmem
          rcases List.mem_cons.mp hmem with rfl | hlater
          · exact hvalid
          · exact hall value hlater
        · exact Cursor.passes_append.mpr ⟨middle, hpass, hpasses⟩
      · intro hread
        obtain ⟨listed, ⟨hlength, hall⟩, hmeans, hpass⟩ := hread
        cases hmeans with
        | nil => cases hlength
        | @cons head first tail rest hhead htail =>
            obtain ⟨middle, hpass, hpasses⟩ := Cursor.passes_append.mp hpass
            rw [← hpass.content_eq, ← hpass.copies_eq] at htail
            have hfirst := (h _ _ _).mpr ⟨head, hall head List.mem_cons_self, hhead, hpass⟩
            have hrest := (ih _ _ _).mpr ⟨tail, ⟨Nat.succ.inj hlength,
              fun value hmem => hall value (List.mem_cons_of_mem head hmem)⟩, htail, hpasses⟩
            simp only [readMany, hfirst, hrest, bind, Except.bind]
            rfl

/-! ## Counts -/

/-- A count that is read must leave room for as many values of some least length. -/
def CountsWith (counted : Cursor → Except LoadError (Nat × Cursor)) (least : Nat) : Prop :=
  ∀ cursor count next,
    counted cursor = .ok (count, next) ↔
      Target.host.Fits count ∧ cursor.Passes (Target.host.ofNat count) next ∧
        count * least ≤ next.remaining

theorem countsWith_guarded (least : Nat) (fault : Nat → Nat → LoadError) :
    CountsWith (fun cursor => do
      let (count, cursor) ← reading cursor.readWord
      if cursor.hasRoom count.toNat least then return (count.toNat, cursor)
      else throw (fault count.toNat cursor.remaining)) least := by
  intro cursor count next
  constructor
  · intro h
    obtain ⟨⟨value, behind⟩, hword, h⟩ := Outcome.bind_eq_ok.mp h
    simp only at h
    split at h
    · next hroom =>
        cases Outcome.pure_eq_ok.mp h
        exact ⟨value.toNat_lt, Cursor.readWord_eq_ok_iff.mp (reading_eq_ok_iff.mp hword),
          of_decide_eq_true hroom⟩
    · cases h
  · intro h
    obtain ⟨hfits, hpass, hroom⟩ := h
    have hword := Cursor.readWord_of_passes hfits hpass
    have hroom : next.hasRoom count least = true := decide_eq_true hroom
    simp only [hword, reading, bind, Except.bind, UInt64.toNat_ofNat_of_lt' hfits, if_pos hroom]
    rfl

theorem countsWith_readCount (typeName : String) (least : Nat) :
    CountsWith (fun cursor => readCount cursor typeName least) least :=
  countsWith_guarded least (.memberCountTooLarge typeName)

theorem countsWith_readTypeCount : CountsWith readTypeCount entryLeast :=
  countsWith_guarded entryLeast .typeCountTooLarge

theorem length_mul_le_flatMap {write : β → Bytes} {least : Nat}
    (hleast : ∀ value, least ≤ (write value).length) (listed : List β) :
    listed.length * least ≤ (listed.flatMap write).length := by
  have hsum := List.card_nsmul_le_sum (listed.map fun value => (write value).length) least
    (by simpa using fun value _ => hleast value)
  rw [List.length_flatMap]
  simpa using hsum

/-- Values of at least the least length leave as much room as is asked for, so a count in
front of them is never refused. -/
theorem counted_eq_ok_iff {counted : Cursor → Except LoadError (Nat × Cursor)} {least : Nat}
    (hcounted : CountsWith counted least)
    {read : Nat → Cursor → Except LoadError (α × Cursor)} {write : β → Bytes}
    {valid : Nat → β → Prop} {means : Bytes → Bool → β → α → Prop}
    (hread : ∀ count, Decodes (read count) write (valid count) means)
    (hleast : ∀ value, least ≤ (write value).length)
    {cursor next : Cursor} {count : Nat} {values : List α} :
    (∃ middle, counted cursor = .ok (count, middle) ∧
        readMany (read count) count middle = .ok (values, next)) ↔
      ∃ listed, (Target.host.Fits listed.length ∧ listed.length = count ∧
          ∀ value ∈ listed, valid count value) ∧
        List.Forall₂ (means cursor.content cursor.copies) listed values ∧
        cursor.Passes (Target.host.ofNat listed.length ++ listed.flatMap write) next := by
  constructor
  · intro h
    obtain ⟨middle, hcount, hmany⟩ := h
    obtain ⟨hfits, hpass, -⟩ := (hcounted _ _ _).mp hcount
    obtain ⟨listed, ⟨rfl, hall⟩, hmeans, hpasses⟩ :=
      (decodes_many (hread count) count _ _ _).mp hmany
    rw [hpass.content_eq, hpass.copies_eq] at hmeans
    exact ⟨listed, ⟨hfits, rfl, hall⟩, hmeans, Cursor.passes_append.mpr ⟨middle, hpass, hpasses⟩⟩
  · intro h
    obtain ⟨listed, ⟨hfits, rfl, hall⟩, hmeans, hpass⟩ := h
    obtain ⟨middle, hpass, hpasses⟩ := Cursor.passes_append.mp hpass
    rw [← hpass.content_eq, ← hpass.copies_eq] at hmeans
    -- The values that follow take up at least the room that the count is checked against.
    have hroom : listed.length * least ≤ middle.remaining :=
      Nat.le_trans (length_mul_le_flatMap hleast listed) hpasses.length_le
    refine ⟨middle, (hcounted _ _ _).mpr ⟨hfits, hpass, hroom⟩, ?_⟩
    exact (decodes_many (hread _) _ _ _ _).mpr ⟨listed, ⟨rfl, hall⟩, hmeans, hpasses⟩

/-! ## Entries -/

theorem fieldLength_le (listed : TableField) : fieldLength ≤ (listed.toBytes .host).length := by
  simp [TableField.toBytes, fieldLength, Target.host, WordWidth.bytes]

theorem enumeratorLength_le (listed : TableEnumerator) :
    enumeratorLength ≤ (listed.toBytes .host).length := by
  simp [TableEnumerator.toBytes, enumeratorLength, Target.host, WordWidth.bytes]

/-- An entry of any kind takes its head at least. -/
theorem entryLeast_le (entry : TableEntry) : entryLeast ≤ (entry.toBytes .host).length := by
  simp only [TableEntry.toBytes, List.length_append, List.length_cons, Target.length_ofNat,
    entryLeast, Target.host, WordWidth.bytes]
  omega

theorem readAnnounced_eq_ok_iff {read : Cursor → Except LoadError (α × Cursor)}
    {write : β → Bytes} {valid : β → Prop} {means : Bytes → Bool → β → α → Prop} {least : Nat}
    (hread : Decodes read write valid means) (hleast : ∀ value, least ≤ (write value).length)
    (typeName : String) (build : Nat → List α → TypeRecord) {cursor next : Cursor}
    {record : TypeRecord} :
    (do
      let (count, cursor) ← readCount cursor typeName least
      let (values, cursor) ← readMany read count cursor
      return (build count values, cursor)) = .ok (record, next) ↔
      ∃ listed values, List.Forall₂ (means cursor.content cursor.copies) listed values ∧
        (Target.host.Fits listed.length ∧ ∀ value ∈ listed, valid value) ∧
        record = build values.length values ∧
        cursor.Passes (Target.host.ofNat listed.length ++ listed.flatMap write) next := by
  have hcounts := countsWith_readCount typeName least
  have hdecodes := fun _ : Nat => hread
  constructor
  · intro h
    obtain ⟨⟨count, middle⟩, hcount, h⟩ := Outcome.bind_eq_ok.mp h
    obtain ⟨⟨values, behind⟩, hmany, h⟩ := Outcome.bind_eq_ok.mp h
    cases Outcome.pure_eq_ok.mp h
    obtain ⟨listed, ⟨hfits, rfl, hall⟩, hmeans, hpass⟩ :=
      (counted_eq_ok_iff hcounts hdecodes hleast).mp ⟨middle, hcount, hmany⟩
    refine ⟨listed, values, hmeans, ⟨hfits, hall⟩, ?_, hpass⟩
    rw [hmeans.length_eq]
  · intro h
    obtain ⟨listed, values, hmeans, ⟨hfits, hall⟩, rfl, hpass⟩ := h
    obtain ⟨middle, hcount, hmany⟩ := (counted_eq_ok_iff hcounts hdecodes hleast).mpr
      ⟨listed, ⟨hfits, rfl, hall⟩, hmeans, hpass⟩
    simp only [hcount, hmany, bind, Except.bind]
    rw [hmeans.length_eq]
    rfl

theorem readMembers_of_hasFields {kind : TypeKind} (hkind : kind.hasFields = true)
    (typeCount : Nat) (id : TypeId) (name : Name) (size : UInt64) (cursor : Cursor) :
    readMembers typeCount id name size kind cursor = (do
      let (count, cursor) ← readCount cursor name.text fieldLength
      let (fields, cursor) ← readMany (readField typeCount name.text) count cursor
      return ((TypeRecord.withMembers id name size kind count).pushFields fields, cursor)) := by
  cases kind <;> first | rfl | cases hkind

theorem readMembers_fields {typeCount : Nat} {id : TypeId} {name : Name} {size : UInt64}
    {kind : TypeKind} (hkind : kind.hasFields = true) {cursor next : Cursor}
    {record : TypeRecord} :
    readMembers typeCount id name size kind cursor = .ok (record, next) ↔
      ∃ listed fields,
        List.Forall₂ (TableField.Describes cursor.content cursor.copies) listed fields ∧
        ((Target.host.Fits listed.length ∧ ∀ field ∈ listed, field.Fits .host) ∧
          ∀ typeId ∈ listed.map (·.typeId), typeId ≤ typeCount) ∧
        record = .ofMembers id name size kind (.fields fields) ∧
        cursor.Passes (Target.host.ofNat listed.length ++
          listed.flatMap (TableField.toBytes .host)) next := by
  have hfits : ∀ listed : List TableField,
      ((Target.host.Fits listed.length ∧ ∀ field ∈ listed, field.Fits .host) ∧
          ∀ typeId ∈ listed.map (·.typeId), typeId ≤ typeCount) ↔
        Target.host.Fits listed.length ∧
          ∀ field ∈ listed, field.Fits .host ∧ field.typeId ≤ typeCount := by
    intro listed
    rw [List.forall_mem_map, and_assoc, ← forall₂_and]
  simp only [hfits, ← TypeRecord.pushFields_withMembers id name size hkind]
  rw [readMembers_of_hasFields hkind]
  exact readAnnounced_eq_ok_iff (decodes_field typeCount name.text) fieldLength_le name.text
    fun count fields => (TypeRecord.withMembers id name size kind count).pushFields fields

theorem readMembers_enumerators {typeCount : Nat} {id : TypeId} {name : Name} {size : UInt64}
    {cursor next : Cursor} {record : TypeRecord} :
    readMembers typeCount id name size .enum cursor = .ok (record, next) ↔
      ∃ listed enumerators,
        List.Forall₂ (TableEnumerator.Describes cursor.content cursor.copies) listed enumerators ∧
        (Target.host.Fits listed.length ∧ ∀ enumerator ∈ listed, enumerator.Fits .host) ∧
        record = .ofMembers id name size .enum (.enumerators enumerators) ∧
        cursor.Passes (Target.host.ofNat listed.length ++
          listed.flatMap (TableEnumerator.toBytes .host)) next := by
  simp only [← TypeRecord.pushEnumerators_withMembers id name size]
  exact readAnnounced_eq_ok_iff decodes_enumerator enumeratorLength_le name.text
    fun count enumerators =>
      (TypeRecord.withMembers id name size .enum count).pushEnumerators enumerators

theorem readMembers_base {typeCount : Nat} {id : TypeId} {name : Name} {size : UInt64}
    {cursor next : Cursor} {record : TypeRecord} :
    readMembers typeCount id name size .base cursor = .ok (record, next) ↔
      record = .ofMembers id name size .base .none ∧ cursor.Passes [] next := by
  rw [← TypeRecord.withMembers_base, Cursor.passes_nil]
  constructor
  · intro h
    cases Outcome.pure_eq_ok.mp h
    exact ⟨rfl, rfl⟩
  · intro hgiven
    rcases hgiven with ⟨rfl, rfl⟩
    rfl

/-- Members are read where a shape of the right kind is written. -/
theorem readMembers_eq_ok_iff {typeCount : Nat} {id : TypeId} {name : Name} {size : UInt64}
    {kind : TypeKind} {cursor next : Cursor} {record : TypeRecord} :
    readMembers typeCount id name size kind cursor = .ok (record, next) ↔
      ∃ (shape : TableShape) (members : Members), shape.kind = kind ∧
        shape.Describes cursor.content cursor.copies members ∧
        (shape.Fits .host ∧ ∀ typeId ∈ shape.typeIds, typeId ≤ typeCount) ∧
        record = .ofMembers id name size kind members ∧
        cursor.Passes (shape.toBytes .host) next := by
  rw [TableShape.exists_describes_iff]
  cases kind with
  | base =>
      rw [readMembers_base]
      simp [TableShape.Fits, TableShape.typeIds, TableShape.toBytes]
  | struct => exact readMembers_fields rfl
  | union => exact readMembers_fields rfl
  | enum =>
      rw [readMembers_enumerators]
      simp [TableShape.Fits, TableShape.typeIds, TableShape.toBytes]

theorem readKind_eq_ok_iff {cursor next : Cursor} {kind : TypeKind} :
    readKind cursor = .ok (kind, next) ↔ cursor.Passes [kind.toByte] next := by
  constructor
  · intro h
    obtain ⟨⟨byte, behind⟩, hbyte, h⟩ := Outcome.bind_eq_ok.mp h
    simp only at h
    split at h
    · next found hfound =>
        cases Outcome.pure_eq_ok.mp h
        rw [TypeKind.toByte_of_ofByte? hfound]
        exact Cursor.readByte_eq_ok_iff.mp (reading_eq_ok_iff.mp hbyte)
    · cases h
  · intro h
    have hbyte := Cursor.readByte_eq_ok_iff.mpr h
    simp only [readKind, hbyte, reading, bind, Except.bind, TypeKind.ofByte?_toByte]
    rfl

theorem decodes_type (typeCount : Nat) :
    Decodes (readType typeCount) (TableEntry.toBytes .host)
      (fun entry => entry.Fits .host ∧ entry.id ≤ typeCount ∧
        ∀ typeId ∈ entry.shape.typeIds, typeId ≤ typeCount) TableEntry.Describes := by
  intro cursor record next
  simp only [TableEntry.toBytes, List.append_assoc, List.cons_append, Cursor.passes_append,
    Cursor.passes_cons_append]
  constructor
  · intro h
    obtain ⟨⟨id, atKind⟩, hid, h⟩ := Outcome.bind_eq_ok.mp h
    simp only at h
    split at h
    · cases h
    · next hle =>
        obtain ⟨⟨kind, atName⟩, hkind, h⟩ := Outcome.bind_eq_ok.mp h
        obtain ⟨⟨name, atSize⟩, hname, h⟩ := Outcome.bind_eq_ok.mp h
        obtain ⟨⟨size, atShape⟩, hsize, h⟩ := Outcome.bind_eq_ok.mp h
        have passId := Cursor.readWord_eq_ok_iff.mp (reading_eq_ok_iff.mp hid)
        have passKind := readKind_eq_ok_iff.mp hkind
        obtain ⟨place, passName, htext, howned⟩ :=
          Cursor.readName_eq_ok_iff.mp (reading_eq_ok_iff.mp hname)
        have passSize := Cursor.readWord_eq_ok_iff.mp (reading_eq_ok_iff.mp hsize)
        obtain ⟨shape, members, rfl, hmeans, ⟨hfits, hids⟩, rfl, passShape⟩ :=
          readMembers_eq_ok_iff.mp h
        rw [passKind.content_eq, passId.content_eq] at htext
        rw [passKind.copies_eq, passId.copies_eq] at howned
        rw [passSize.content_eq, passName.content_eq, passKind.content_eq, passId.content_eq,
          passSize.copies_eq, passName.copies_eq, passKind.copies_eq, passId.copies_eq] at hmeans
        exact ⟨⟨id.toNat, place.toNat, size.toNat, shape⟩,
          ⟨⟨id.toNat_lt, place.toNat_lt, size.toNat_lt, hfits⟩, Nat.le_of_not_lt hle, hids⟩,
          ⟨htext, howned, rfl, hmeans, rfl⟩,
          atKind, passId, atName, passKind, atSize, passName, atShape, passSize, passShape⟩
  · intro h
    obtain ⟨entry, ⟨⟨hid, hname, -, hshape⟩, hle, hids⟩, hmeans, h⟩ := h
    obtain ⟨atKind, passId, atName, passKind, atSize, passName, atShape, passSize, passShape⟩ := h
    have htext := hmeans.name
    have howned := hmeans.owned
    have hmembers := hmeans.members
    rw [← passId.content_eq, ← passKind.content_eq] at htext
    rw [← passId.copies_eq, ← passKind.copies_eq] at howned
    rw [← passId.content_eq, ← passKind.content_eq, ← passName.content_eq, ← passSize.content_eq,
      ← passId.copies_eq, ← passKind.copies_eq, ← passName.copies_eq, ← passSize.copies_eq]
      at hmembers
    have readsId := Cursor.readWord_of_passes hid passId
    have readsKind := readKind_eq_ok_iff.mpr passKind
    have readsName := Cursor.readName_of_passes hname passName htext howned
    have readsSize : atSize.readWord = .ok (record.size, atShape) := by
      rw [← hmeans.size] at passSize
      exact Cursor.readWord_eq_ok_iff.mpr passSize
    have readsMembers := readMembers_eq_ok_iff.mpr
      ⟨entry.shape, record.members, rfl, hmembers, ⟨hshape, hids⟩, hmeans.whole, passShape⟩
    have hin : ¬ typeCount < entry.id := Nat.not_lt.mpr hle
    simp only [readType, readsId, readsKind, readsName, readsSize, reading, bind, Except.bind,
      UInt64.toNat_ofNat_of_lt' hid, if_neg hin, readsMembers]

theorem id_le_of_readType {typeCount : Nat} {cursor next : Cursor} {record : TypeRecord}
    (h : readType typeCount cursor = .ok (record, next)) : record.id.index ≤ typeCount := by
  obtain ⟨entry, ⟨-, hle, -⟩, hmeans, -⟩ := (decodes_type typeCount cursor record next).mp h
  rw [hmeans.whole, TypeRecord.id_ofMembers]
  exact hle

/-! ## Tables -/

theorem readTable_eq_ok_iff {cursor next : Cursor} {count : Nat} {records : List TypeRecord} :
    readTable cursor = .ok ((count, records), next) ↔
      ∃ table : TypeTable, (table.Fits .host ∧ table.entries.length = count ∧
          ∀ entry ∈ table.entries, entry.id ≤ count ∧
            ∀ typeId ∈ entry.shape.typeIds, typeId ≤ count) ∧
        List.Forall₂ (TableEntry.Describes cursor.content cursor.copies) table.entries records ∧
        cursor.Passes (table.toBytes .host) next := by
  constructor
  · intro h
    obtain ⟨⟨found, middle⟩, hcount, h⟩ := Outcome.bind_eq_ok.mp h
    obtain ⟨⟨entries, behind⟩, hmany, h⟩ := Outcome.bind_eq_ok.mp h
    cases Outcome.pure_eq_ok.mp h
    obtain ⟨entries, ⟨hfits, hlength, hall⟩, hmeans, hpass⟩ :=
      (counted_eq_ok_iff countsWith_readTypeCount decodes_type entryLeast_le).mp
        ⟨middle, hcount, hmany⟩
    exact ⟨⟨entries⟩, ⟨⟨hfits, fun entry hmem => (hall entry hmem).1⟩, hlength,
      fun entry hmem => (hall entry hmem).2⟩, hmeans, hpass⟩
  · intro h
    obtain ⟨table, ⟨hfits, hlength, hids⟩, hmeans, hpass⟩ := h
    obtain ⟨middle, hcount, hmany⟩ :=
      (counted_eq_ok_iff countsWith_readTypeCount decodes_type entryLeast_le).mpr
        ⟨table.entries, ⟨hfits.1, hlength,
          fun entry hmem => ⟨hfits.2 entry hmem, hids entry hmem⟩⟩, hmeans, hpass⟩
    simp only [readTable, hcount, hmany, bind, Except.bind]
    rfl

end TypeAtlas.Registry
