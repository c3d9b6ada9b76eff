import Mathlib.Data.List.Forall2
import TypeAtlas.Blob.TypeTable
import TypeAtlas.Proofs.Registry.Members

/-!
# What a listed type describes

The records that the entries of a type table stand for. A name stands in a table as an
offset, so a description is relative to the payload in which the table stands, and to whether
names are held apart from it.
-/

namespace TypeAtlas

structure TableField.Describes (payload : Bytes) (copies : Bool) (listed : TableField)
    (field : Field) : Prop where
  name : Bytes.TextAt payload listed.name field.name.text
  owned : field.name.owned = copies
  isConst : field.isConst = (listed.flag != 0)
  pointerDepth : field.pointerDepth = listed.pointerDepth
  offset : field.offset.toNat = listed.offset
  arraySize : field.arraySize.toNat = listed.arraySize
  typeId : field.typeId = ⟨listed.typeId⟩

structure TableEnumerator.Describes (payload : Bytes) (copies : Bool) (listed : TableEnumerator)
    (enumerator : Enumerator) : Prop where
  name : Bytes.TextAt payload listed.name enumerator.name.text
  owned : enumerator.name.owned = copies
  value : enumerator.value.toNat = listed.value

/-- Members go with their shape, and come one for one in the order of the list. -/
inductive TableShape.Describes (payload : Bytes) (copies : Bool) : TableShape → Members → Prop
  | base : Describes payload copies .base .none
  | struct {listed : List TableField} {fields : List Field}
      (h : List.Forall₂ (TableField.Describes payload copies) listed fields) :
      Describes payload copies (.struct listed) (.fields fields)
  | union {listed : List TableField} {fields : List Field}
      (h : List.Forall₂ (TableField.Describes payload copies) listed fields) :
      Describes payload copies (.union listed) (.fields fields)
  | enum {listed : List TableEnumerator} {enumerators : List Enumerator}
      (h : List.Forall₂ (TableEnumerator.Describes payload copies) listed enumerators) :
      Describes payload copies (.enum listed) (.enumerators enumerators)

/-- The shapes of a kind are made by its constructor, and so are the members that they describe. -/
theorem TableShape.exists_describes_iff {payload : Bytes} {copies : Bool} {kind : TypeKind}
    {P : TableShape → Members → Prop} :
    (∃ shape members, shape.kind = kind ∧ shape.Describes payload copies members ∧
        P shape members) ↔
      match kind with
      | .base => P .base .none
      | .struct => ∃ listed fields,
          List.Forall₂ (TableField.Describes payload copies) listed fields ∧
          P (.struct listed) (.fields fields)
      | .union => ∃ listed fields,
          List.Forall₂ (TableField.Describes payload copies) listed fields ∧
          P (.union listed) (.fields fields)
      | .enum => ∃ listed enumerators,
          List.Forall₂ (TableEnumerator.Describes payload copies) listed enumerators ∧
          P (.enum listed) (.enumerators enumerators) := by
  constructor
  · intro h
    obtain ⟨shape, members, rfl, hmeans, hholds⟩ := h
    cases hmeans with
    | base => exact hholds
    | struct hmeans | union hmeans | enum hmeans => exact ⟨_, _, hmeans, hholds⟩
  · intro h
    cases kind with
    | base => exact ⟨_, _, rfl, .base, h⟩
    | struct =>
        obtain ⟨_, _, hmeans, hholds⟩ := h
        exact ⟨_, _, rfl, .struct hmeans, hholds⟩
    | union =>
        obtain ⟨_, _, hmeans, hholds⟩ := h
        exact ⟨_, _, rfl, .union hmeans, hholds⟩
    | enum =>
        obtain ⟨_, _, hmeans, hholds⟩ := h
        exact ⟨_, _, rfl, .enum hmeans, hholds⟩

structure TableEntry.Describes (payload : Bytes) (copies : Bool) (entry : TableEntry)
    (record : TypeRecord) : Prop where
  name : Bytes.TextAt payload entry.name record.name.text
  owned : record.name.owned = copies
  size : record.size.toNat = entry.size
  members : entry.shape.Describes payload copies record.members
  /-- The record has the id and kind of the entry, and room for its members and no more. -/
  whole : record =
    .ofMembers ⟨entry.id⟩ record.name record.size entry.shape.kind record.members

/-! ## Every readable entry describes a record -/

def Bytes.HasText (payload : Bytes) (offset : Nat) : Prop :=
  ∃ text, Bytes.TextAt payload offset text

theorem exists_forall₂ {relation : α → β → Prop} {values : List α}
    (h : ∀ value ∈ values, ∃ other, relation value other) :
    ∃ others, List.Forall₂ relation values others := by
  induction values with
  | nil => exact ⟨[], .nil⟩
  | cons first rest ih =>
      obtain ⟨other, hother⟩ := h first List.mem_cons_self
      obtain ⟨others, hothers⟩ := ih fun value hmem => h value (List.mem_cons_of_mem first hmem)
      exact ⟨other :: others, .cons hother hothers⟩

theorem exists_of_forall₂ {relation : α → β → Prop} {values : List α} {others : List β}
    (h : List.Forall₂ relation values others) {value : α} (hmem : value ∈ values) :
    ∃ other ∈ others, relation value other := by
  induction h with
  | nil => cases hmem
  | cons hfirst _ ih =>
      rcases List.mem_cons.mp hmem with rfl | hlater
      · exact ⟨_, List.mem_cons_self, hfirst⟩
      · obtain ⟨other, hother, hrelation⟩ := ih hlater
        exact ⟨other, List.mem_cons_of_mem _ hother, hrelation⟩

theorem TableField.exists_describes {payload : Bytes} {listed : TableField}
    (h : payload.HasText listed.name) (hfits : listed.Fits .host) (copies : Bool) :
    ∃ field, listed.Describes payload copies field := by
  obtain ⟨text, htext⟩ := h
  obtain ⟨-, hoffset, harray, -⟩ := hfits
  exact ⟨⟨⟨text, copies⟩, ⟨listed.typeId⟩, UInt64.ofNat listed.offset,
      UInt64.ofNat listed.arraySize, listed.pointerDepth, listed.flag != 0⟩,
    htext, rfl, rfl, rfl, UInt64.toNat_ofNat_of_lt' hoffset, UInt64.toNat_ofNat_of_lt' harray, rfl⟩

theorem TableEnumerator.exists_describes {payload : Bytes} {listed : TableEnumerator}
    (h : payload.HasText listed.name) (hfits : listed.Fits .host) (copies : Bool) :
    ∃ enumerator, listed.Describes payload copies enumerator := by
  obtain ⟨text, htext⟩ := h
  exact ⟨⟨⟨text, copies⟩, UInt64.ofNat listed.value⟩, htext, rfl,
    UInt64.toNat_ofNat_of_lt' hfits.2⟩

theorem TableShape.exists_describes {payload : Bytes} {shape : TableShape}
    (h : ∀ offset ∈ shape.nameOffsets, payload.HasText offset) (hfits : shape.Fits .host)
    (copies : Bool) : ∃ members, shape.Describes payload copies members := by
  have hfields : ∀ listed : List TableField,
      (∀ offset ∈ listed.map (·.name), payload.HasText offset) →
      (∀ field ∈ listed, field.Fits .host) →
      ∃ fields, List.Forall₂ (TableField.Describes payload copies) listed fields := by
    intro listed hnames hall
    apply exists_forall₂
    intro field hmem
    exact TableField.exists_describes (hnames _ (List.mem_map_of_mem hmem)) (hall field hmem) copies
  cases shape with
  | base => exact ⟨.none, .base⟩
  | struct listed =>
      obtain ⟨fields, hall⟩ := hfields listed h hfits.2
      exact ⟨.fields fields, .struct hall⟩
  | union listed =>
      obtain ⟨fields, hall⟩ := hfields listed h hfits.2
      exact ⟨.fields fields, .union hall⟩
  | enum listed =>
      have hall : ∃ enumerators,
          List.Forall₂ (TableEnumerator.Describes payload copies) listed enumerators := by
        apply exists_forall₂
        intro enumerator hmem
        exact TableEnumerator.exists_describes (h _ (List.mem_map_of_mem hmem))
          (hfits.2 enumerator hmem) copies
      obtain ⟨enumerators, hall⟩ := hall
      exact ⟨.enumerators enumerators, .enum hall⟩

theorem TableEntry.exists_describes {payload : Bytes} {entry : TableEntry}
    (hname : payload.HasText entry.name)
    (hmembers : ∀ offset ∈ entry.shape.nameOffsets, payload.HasText offset)
    (hfits : entry.Fits .host) (copies : Bool) :
    ∃ record, entry.Describes payload copies record := by
  obtain ⟨text, htext⟩ := hname
  obtain ⟨-, -, hsize, hshape⟩ := hfits
  obtain ⟨members, hdescribes⟩ := TableShape.exists_describes hmembers hshape copies
  exact ⟨.ofMembers ⟨entry.id⟩ ⟨text, copies⟩ (UInt64.ofNat entry.size) entry.shape.kind members,
    htext, rfl, UInt64.toNat_ofNat_of_lt' hsize, hdescribes, rfl⟩

/-! ## What is described is readable -/

theorem TableShape.Describes.hasText {payload : Bytes} {copies : Bool} {shape : TableShape}
    {members : Members} (h : shape.Describes payload copies members) :
    ∀ offset ∈ shape.nameOffsets, payload.HasText offset := by
  intro offset hmem
  cases h with
  | base => cases hmem
  | struct hall | union hall =>
      obtain ⟨listed, hlisted, rfl⟩ := List.mem_map.mp hmem
      obtain ⟨field, -, hdescribes⟩ := exists_of_forall₂ hall hlisted
      exact ⟨_, hdescribes.name⟩
  | enum hall =>
      obtain ⟨listed, hlisted, rfl⟩ := List.mem_map.mp hmem
      obtain ⟨enumerator, -, hdescribes⟩ := exists_of_forall₂ hall hlisted
      exact ⟨_, hdescribes.name⟩

end TypeAtlas
