import TypeAtlas.Heap.Tagged
import TypeAtlas.Proofs.Registry.Acceptance
import TypeAtlas.Proofs.Registry.Holding

/-!
# Loading with and without copies of the names

Whether names are copied is written into each name that is read, and looked at nowhere. So the two
ways to load fail alike, and come to the same registry but for how it holds names. To detach it
afterwards has the effect of copying from the start.
-/

namespace TypeAtlas

def Cursor.holding (owned : Bool) (cursor : Cursor) : Cursor := { cursor with copies := owned }

/-- What is read, with its names held as asked, from there on as well. -/
def readHeld (hold : Bool → α → α) (owned : Bool) (read : α × Cursor) : α × Cursor :=
  (hold owned read.1, read.2.holding owned)

/-- A reader does the same however names are held: the same fault, or the same result with its
names held that way. -/
def Uniform (hold : Bool → α → α) (read : Cursor → Except ε (α × Cursor)) : Prop :=
  ∀ owned cursor, read (cursor.holding owned) = (read cursor).map (readHeld hold owned)

def unnamed (_ : Bool) (value : α) : α := value

namespace Uniform

variable {hold : Bool → α → α}

/-- Behind a read that is uniform, what follows may be compared on what was read. -/
theorem bind {read : Cursor → Except ε (α × Cursor)} (h : Uniform hold read) {owned : Bool}
    {cursor : Cursor} {next other : α × Cursor → Except ε (β × Cursor)}
    {after : β × Cursor → β × Cursor}
    (hnext : ∀ value behind,
      other (hold owned value, behind.holding owned) = (next (value, behind)).map after) :
    (read (cursor.holding owned) >>= other) = (read cursor >>= next).map after := by
  rw [h owned cursor]
  cases read cursor with
  | error fault => rfl
  | ok result => exact hnext result.1 result.2

/-- Values without names are passed on as they are. -/
theorem bind_unnamed {read : Cursor → Except ε (α × Cursor)} (h : Uniform unnamed read)
    {owned : Bool} {cursor : Cursor} {next other : α × Cursor → Except ε (β × Cursor)}
    {after : β × Cursor → β × Cursor}
    (hnext : ∀ value behind,
      other (value, behind.holding owned) = (next (value, behind)).map after) :
    (read (cursor.holding owned) >>= other) = (read cursor >>= next).map after :=
  h.bind hnext

theorem reading {read : Cursor → Except BlobError (α × Cursor)} (h : Uniform hold read) :
    Uniform hold fun cursor => Registry.reading (read cursor) := by
  intro owned cursor
  simp only [h owned cursor]
  cases read cursor <;> rfl

theorem map {read : Cursor → Except ε (α × Cursor)} (h : Uniform unnamed read) (f : α → β) :
    Uniform unnamed fun cursor => (read cursor).map fun (value, next) => (f value, next) := by
  intro owned cursor
  simp only [h owned cursor]
  cases read cursor <;> rfl

end Uniform

/-! ## Reads of a cursor -/

namespace Cursor

theorem uniform_readBytes (count : Nat) : Uniform unnamed (readBytes · count) := by
  intro owned cursor
  have hlength : (cursor.holding owned).length = cursor.length := rfl
  have hoffset : (cursor.holding owned).offset = cursor.offset := rfl
  simp only [readBytes, hlength, hoffset]
  split <;> rfl

theorem uniform_readNumber (width : Nat) : Uniform unnamed (readNumber · width) :=
  (uniform_readBytes width).map (Bytes.toWord hostOrder)

theorem uniform_readByte : Uniform unnamed readByte := (uniform_readNumber 1).map UInt8.ofNat

theorem uniform_readFlag : Uniform unnamed readFlag := (uniform_readNumber 1).map (· != 0)

theorem uniform_readHalf : Uniform unnamed readHalf := (uniform_readNumber 4).map UInt32.ofNat

theorem uniform_readWord : Uniform unnamed readWord :=
  (uniform_readNumber hostWidth).map UInt64.ofNat

theorem nameAt_holding (owned : Bool) (cursor : Cursor) (offset : Nat) :
    (cursor.holding owned).nameAt offset = (cursor.nameAt offset).map (Name.hold owned) := by
  have hlength : (cursor.holding owned).length = cursor.length := rfl
  have hbuffer : (cursor.holding owned).buffer = cursor.buffer := rfl
  simp only [nameAt, hlength, hbuffer]
  split
  · rfl
  · split
    · split <;> rfl
    · rfl

theorem uniform_readName : Uniform Name.hold readName := by
  intro owned cursor
  refine uniform_readWord.bind_unnamed fun offset behind => ?_
  simp only [nameAt_holding]
  cases behind.nameAt offset.toNat <;> rfl

end Cursor

/-! ## Reads of a table -/

namespace Registry

theorem uniform_readField (typeCount : Nat) (typeName : String) :
    Uniform Field.hold (readField typeCount typeName) := by
  intro owned cursor
  refine Cursor.uniform_readName.reading.bind fun name atFlag => ?_
  refine Cursor.uniform_readFlag.reading.bind_unnamed fun isConst atDepth => ?_
  refine Cursor.uniform_readHalf.reading.bind_unnamed fun depth atOffset => ?_
  refine Cursor.uniform_readWord.reading.bind_unnamed fun offset atArray => ?_
  refine Cursor.uniform_readWord.reading.bind_unnamed fun arraySize atId => ?_
  refine Cursor.uniform_readWord.reading.bind_unnamed fun typeId behind => ?_
  simp only [Name.text_hold]
  by_cases hout : typeCount < typeId.toNat
  · rw [if_pos hout, if_pos hout]
    rfl
  · rw [if_neg hout, if_neg hout]
    rfl

theorem uniform_readEnumerator : Uniform Enumerator.hold readEnumerator := by
  intro owned cursor
  refine Cursor.uniform_readName.reading.bind fun name atValue => ?_
  exact Cursor.uniform_readWord.reading.bind_unnamed fun value behind => rfl

theorem uniform_readMany {hold : Bool → α → α} {read : Cursor → Except LoadError (α × Cursor)}
    (h : Uniform hold read) (count : Nat) :
    Uniform (fun owned => List.map (hold owned)) (readMany read count) := by
  induction count with
  | zero => exact fun _ _ => rfl
  | succ count ih =>
      intro owned cursor
      refine h.bind fun first behind => ?_
      exact ih.bind fun rest behind => rfl

/-- A count is checked against the bytes that are left, which are as many however names are held. -/
theorem uniform_guarded (least : Nat) (refuse : Nat → Nat → LoadError) :
    Uniform unnamed (fun cursor => do
      let (count, cursor) ← reading cursor.readWord
      if cursor.hasRoom count.toNat least then return (count.toNat, cursor)
      else throw (refuse count.toNat cursor.remaining)) := by
  intro owned cursor
  refine Cursor.uniform_readWord.reading.bind_unnamed fun count behind => ?_
  have hroom : (behind.holding owned).hasRoom = behind.hasRoom := rfl
  simp only [hroom]
  cases behind.hasRoom count.toNat least <;> rfl

theorem uniform_readCount (typeName : String) (least : Nat) :
    Uniform unnamed (readCount · typeName least) :=
  uniform_guarded least (.memberCountTooLarge typeName)

theorem uniform_readTypeCount : Uniform unnamed readTypeCount :=
  uniform_guarded entryLeast .typeCountTooLarge

/-- Members that a count announces are read as they are held, and so is what is built of them. -/
theorem readAnnounced_holding {hold : Bool → α → α}
    {read : Cursor → Except LoadError (α × Cursor)} (hread : Uniform hold read)
    (typeName : String) (least : Nat) {owned : Bool} {build other : Nat → List α → TypeRecord}
    (hbuild : ∀ count values,
      (build count values).hold owned = other count (values.map (hold owned)))
    (cursor : Cursor) :
    (do
      let (count, cursor) ← readCount (cursor.holding owned) typeName least
      let (values, cursor) ← readMany read count cursor
      return (other count values, cursor)) =
    (do
      let (count, cursor) ← readCount cursor typeName least
      let (values, cursor) ← readMany read count cursor
      return (build count values, cursor)).map (readHeld TypeRecord.hold owned) := by
  refine (uniform_readCount typeName least).bind_unnamed fun count atFirst => ?_
  refine (uniform_readMany hread count).bind fun values behind => ?_
  simp only [← hbuild]
  rfl

theorem readMembers_holding (owned : Bool) (typeCount : Nat) (id : TypeId) (name : Name)
    (size : UInt64) (kind : TypeKind) (cursor : Cursor) :
    readMembers typeCount id (name.hold owned) size kind (cursor.holding owned) =
      (readMembers typeCount id name size kind cursor).map (readHeld TypeRecord.hold owned) := by
  have hfields : ∀ (kind : TypeKind) (count : Nat) (fields : List Field),
      ((TypeRecord.withMembers id name size kind count).pushFields fields).hold owned =
        (TypeRecord.withMembers id (name.hold owned) size kind count).pushFields
          (fields.map (Field.hold owned)) := by
    intro kind count fields
    rw [TypeRecord.hold_pushFields, TypeRecord.hold_withMembers]
  cases kind with
  | base =>
      simp only [readMembers, ← TypeRecord.hold_withMembers]
      rfl
  | struct =>
      exact readAnnounced_holding (uniform_readField typeCount name.text) name.text fieldLength
        (hfields .struct) cursor
  | union =>
      exact readAnnounced_holding (uniform_readField typeCount name.text) name.text fieldLength
        (hfields .union) cursor
  | enum =>
      have henumerators : ∀ (count : Nat) (enumerators : List Enumerator),
          ((TypeRecord.withMembers id name size .enum count).pushEnumerators enumerators).hold
              owned =
            (TypeRecord.withMembers id (name.hold owned) size .enum count).pushEnumerators
              (enumerators.map (Enumerator.hold owned)) := by
        intro count enumerators
        rw [TypeRecord.hold_pushEnumerators, TypeRecord.hold_withMembers]
      exact readAnnounced_holding uniform_readEnumerator name.text enumeratorLength henumerators
        cursor

theorem uniform_readKind : Uniform unnamed readKind := by
  intro owned cursor
  refine Cursor.uniform_readByte.reading.bind_unnamed fun byte behind => ?_
  cases hkind : TypeKind.ofByte? byte <;> simp only [hkind] <;> rfl

theorem uniform_readType (typeCount : Nat) : Uniform TypeRecord.hold (readType typeCount) := by
  intro owned cursor
  refine Cursor.uniform_readWord.reading.bind_unnamed fun id atKind => ?_
  dsimp only
  by_cases hout : typeCount < id.toNat
  · rw [if_pos hout, if_pos hout]
    rfl
  · rw [if_neg hout, if_neg hout]
    refine uniform_readKind.bind_unnamed fun kind atName => ?_
    refine Cursor.uniform_readName.reading.bind fun name atSize => ?_
    refine Cursor.uniform_readWord.reading.bind_unnamed fun size behind => ?_
    exact readMembers_holding owned typeCount ⟨id.toNat⟩ name size kind behind

/-- The records of a table are held as its names are read. -/
theorem uniform_readTable :
    Uniform (fun owned table => (table.1, table.2.map (TypeRecord.hold owned))) readTable := by
  intro owned cursor
  refine uniform_readTypeCount.bind_unnamed fun count atFirst => ?_
  exact (uniform_readMany (uniform_readType count) count).bind fun records behind => rfl

/-! ## Loads -/

/-- The registry of the same types that holds its names as asked and has a tag of its own. -/
def counterpart (registry : Registry) (owned : Bool) (tag : UInt64) : Registry :=
  { registry.hold owned with tag := tag }

section
variable (registry : Registry) (owned : Bool) (tag : UInt64)

theorem hold_counterpart (later : Bool) :
    (registry.counterpart owned tag).hold later = registry.counterpart later tag :=
  congrArg (fun other : Registry => { other with tag := tag }) (hold_hold later registry owned)

theorem detach_counterpart :
    (registry.counterpart owned tag).detach = registry.counterpart true tag := by
  rw [detach_eq_hold, hold_counterpart]

theorem heldAs_counterpart : (registry.counterpart owned tag).HeldAs owned :=
  heldAs_hold owned registry

theorem agrees_counterpart (other : Bool) (later : UInt64) :
    (registry.counterpart owned tag).Agrees (registry.counterpart other later) := by
  apply agrees_of_hold
  · rw [hold_counterpart, hold_counterpart]
    rfl
  · rw [hold_counterpart, hold_counterpart]
    rfl

theorem agrees_of_counterparts {registry : Registry} {registries : List Registry}
    (h : ∀ other ∈ registries, ∃ owned tag, other = registry.counterpart owned tag) :
    ∀ first ∈ registries, ∀ second ∈ registries, first.Agrees second := by
  intro first hfirst second hsecond
  obtain ⟨owned, tag, rfl⟩ := h first hfirst
  obtain ⟨other, later, rfl⟩ := h second hsecond
  exact agrees_counterpart registry owned tag other later

end

theorem counterpart_empty (owned : Bool) (tag later : UInt64) :
    (empty tag).counterpart owned later = empty later := by
  simp [counterpart, empty, hold]

theorem foldl_put_retag (registry : Registry) (records : List TypeRecord) (later : UInt64) :
    records.foldl put { registry with tag := later } =
      { records.foldl put registry with tag := later } :=
  List.foldl_hom (fun registry : Registry => { registry with tag := later }) fun _ _ => rfl

theorem ofRecords_hold (count : Nat) (records : List TypeRecord) (owned : Bool)
    (tag later : UInt64) :
    ofRecords count (records.map (TypeRecord.hold owned)) later =
      (ofRecords count records tag).counterpart owned later := by
  rw [counterpart, hold_ofRecords]
  exact foldl_put_retag (withCount count tag) (records.map (TypeRecord.hold owned)) later

/-- A load fails as any other of the bytes does, or comes to a counterpart of its registry. -/
theorem load_counterpart (bytes : Bytes) (framing : Framing) (copies owned : Bool)
    (tag later : UInt64) :
    load bytes ⟨owned, framing⟩ later =
      (load bytes ⟨copies, framing⟩ tag).map fun registry => registry.counterpart owned later := by
  cases hpayload : framing.payload bytes with
  | error fault =>
      simp only [load, hpayload]
      rfl
  | ok payload =>
      rw [load_of_payload hpayload, load_of_payload hpayload]
      by_cases hempty : payload = []
      · subst hempty
        exact congrArg Except.ok (counterpart_empty owned tag later).symm
      · rw [load_raw_of_ne_nil hempty, load_raw_of_ne_nil hempty]
        have htable : readTable (.start payload owned) = _ :=
          uniform_readTable owned (.start payload copies)
        rw [htable]
        cases readTable (.start payload copies) with
        | error fault => rfl
        | ok read =>
            obtain ⟨⟨count, records⟩, behind⟩ := read
            exact congrArg Except.ok (ofRecords_hold count records owned tag later)

/-- To load and detach comes to a counterpart as well. -/
theorem loadOwned_counterpart (bytes : Bytes) (framing : Framing) (tag later : UInt64) :
    loadOwned bytes framing later =
      (load bytes ⟨false, framing⟩ tag).map fun registry => registry.counterpart true later := by
  rw [loadOwned, load_counterpart bytes framing false true tag later]
  cases load bytes ⟨false, framing⟩ tag with
  | error fault => rfl
  | ok registry => exact congrArg Except.ok (detach_counterpart registry true later)

/-! ## Values on the heap -/

/-- A detached registry knows the values of the one that it was. -/
theorem typeOf?_hold (owned : Bool) (registry : Registry) (memory : Memory) (payload : Nat) :
    (registry.hold owned).typeOf? memory payload =
      (registry.typeOf? memory payload).map (TypeRecord.hold owned) := by
  have hheader : (registry.hold owned).header? memory payload = registry.header? memory payload :=
    rfl
  rw [typeOf?, typeOf?, hheader]
  cases registry.header? memory payload with
  | none => rfl
  | some header => exact typeById?_hold owned registry ⟨header.typeId.toNat⟩

theorem typeOf?_detach (registry : Registry) (memory : Memory) (payload : Nat) :
    (registry.detach.typeOf? memory payload).map (TypeRecord.hold false) =
      (registry.typeOf? memory payload).map (TypeRecord.hold false) := by
  rw [detach_eq_hold, typeOf?_hold, Option.map_map]
  congr 1
  funext record
  exact record.hold_hold false true

/-- All ways to load some bytes fail with one fault, or come to registries that agree, also once
they are detached. Their names are held apart from the bytes where they were copied or detached,
and nowhere else. What a detached registry knows of a value on the heap is what it knew before. -/
theorem load_agrees (bytes : Bytes) (framing : Framing) (tag copiedTag ownedTag : UInt64) :
    (∃ fault,
      load bytes ⟨false, framing⟩ tag = .error fault ∧
      load bytes ⟨true, framing⟩ copiedTag = .error fault ∧
      loadOwned bytes framing ownedTag = .error fault) ∨
    ∃ borrowed copied owned,
      load bytes ⟨false, framing⟩ tag = .ok borrowed ∧
      load bytes ⟨true, framing⟩ copiedTag = .ok copied ∧
      loadOwned bytes framing ownedTag = .ok owned ∧
      (∀ registry ∈ [borrowed, copied, owned, borrowed.detach, copied.detach, owned.detach],
        ∀ other ∈ [borrowed, copied, owned, borrowed.detach, copied.detach, owned.detach],
          registry.Agrees other) ∧
      borrowed.HeldAs false ∧
      (∀ registry ∈ [copied, owned, borrowed.detach, copied.detach, owned.detach],
        registry.HeldAs true) ∧
      ∀ registry ∈ [borrowed, copied, owned],
        registry.detach.tag = registry.tag ∧
        ∀ memory payload, (registry.detach.typeOf? memory payload).map (TypeRecord.hold false) =
          (registry.typeOf? memory payload).map (TypeRecord.hold false) := by
  have hcopied := load_counterpart bytes framing false true tag copiedTag
  have howned := loadOwned_counterpart bytes framing tag ownedTag
  have hself := load_counterpart bytes framing false false tag tag
  cases hload : load bytes ⟨false, framing⟩ tag with
  | error fault =>
      rw [hload] at hcopied howned
      exact .inl ⟨fault, rfl, hcopied, howned⟩
  | ok registry =>
      rw [hload] at hcopied howned hself
      -- All of them are counterparts of the first, itself included.
      have hborrowed : registry = registry.counterpart false tag := Except.ok.inj hself
      refine .inr ⟨registry.counterpart false tag, registry.counterpart true copiedTag,
        registry.counterpart true ownedTag, congrArg Except.ok hborrowed, hcopied, howned, ?_, ?_,
        ?_, ?_⟩
      · apply agrees_of_counterparts
        simp only [detach_counterpart, List.forall_mem_cons, List.not_mem_nil, false_implies,
          implies_true, and_true]
        exact ⟨⟨_, _, rfl⟩, ⟨_, _, rfl⟩, ⟨_, _, rfl⟩, ⟨_, _, rfl⟩, ⟨_, _, rfl⟩, ⟨_, _, rfl⟩⟩
      · exact heldAs_counterpart registry false tag
      · simp only [detach_counterpart, List.forall_mem_cons, List.not_mem_nil, false_implies,
          implies_true, and_true, heldAs_counterpart]
      · intro other _
        exact ⟨rfl, typeOf?_detach other⟩

end Registry

end TypeAtlas
