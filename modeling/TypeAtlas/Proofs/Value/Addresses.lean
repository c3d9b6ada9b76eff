import TypeAtlas.Proofs.Heap.Tagging
import TypeAtlas.Proofs.Value.Access

/-!
# Addresses of fields

The address of a field is found from its offset alone, so it may be that of a field which does not
end inside of the value. Every view has its address, and here is said which addresses have no view.
A tagged value on the heap is answered for like one whose type is given.
-/

namespace TypeAtlas

/-- The address of a field in a value as long as its type says, counted from where the value
starts. It is given when the offset of the field lies in the value or at its end; a view is there
as well unless the field sticks out. -/
structure Registry.Addresses (registry : Registry) (value : Bytes) (name : String)
    (type : TypeRecord) (address : Option Nat) : Prop where
  given : ∀ offset, address = some offset ↔
    ∃ field, type.field? name = some field ∧ field.offset ≤ type.size ∧
      offset = field.offset.toNat
  viewed : ∀ view, registry.view? value name type = some view →
    address = some view.start ∧ view.start + view.length ≤ value.length
  unviewed : address.isSome = true ∧ registry.view? value name type = none ↔
    ∃ field, type.field? name = some field ∧ field.offset ≤ type.size ∧
      type.size.toNat < field.offset.toNat + registry.extentOf field

namespace Registry

theorem fieldOffset?_eq_some_iff {type : TypeRecord} {name : String} {offset : Nat} :
    fieldOffset? type name = some offset ↔
      ∃ field, type.field? name = some field ∧ field.offset ≤ type.size ∧
        offset = field.offset.toNat := by
  unfold fieldOffset?
  cases type.field? name with
  | none => simp
  | some field => simp [eq_comm]

theorem view?_eq_none_iff {registry : Registry} {value : Bytes} {name : String}
    {type : TypeRecord} {field : Field} (hfield : type.field? name = some field)
    (hvalue : value.length = type.size.toNat) :
    registry.view? value name type = none ↔
      type.size.toNat < field.offset.toNat + registry.extentOf field := by
  have hsize : type.size.toNat < UInt64.size := type.size.toNat_lt
  rw [Option.eq_none_iff_forall_ne_some]
  simp only [ne_eq, view?_eq_some_iff, IsView, hfield]
  constructor
  · intro hnone
    by_contra hle
    exact hnone _ ⟨field, rfl, by omega, by omega, rfl⟩
  · intro hlt view hview
    obtain ⟨other, hother, -, hle, -⟩ := hview
    cases hother
    omega

theorem addresses_fieldOffset? (registry : Registry) {value : Bytes} (name : String)
    {type : TypeRecord} (hvalue : value.length = type.size.toNat) :
    registry.Addresses value name type (fieldOffset? type name) where
  given _ := fieldOffset?_eq_some_iff
  viewed view hview := by
    obtain ⟨field, hfield, -, hle, rfl⟩ := view?_eq_some_iff.mp hview
    refine ⟨fieldOffset?_eq_some_iff.mpr ⟨field, hfield, ?_, rfl⟩, hle⟩
    rw [UInt64.le_iff_toNat_le]
    omega
  unviewed := by
    constructor
    · intro h
      obtain ⟨haddress, hnone⟩ := h
      obtain ⟨offset, hoffset⟩ := Option.isSome_iff_exists.mp haddress
      obtain ⟨field, hfield, hle, -⟩ := fieldOffset?_eq_some_iff.mp hoffset
      exact ⟨field, hfield, hle, (view?_eq_none_iff hfield hvalue).mp hnone⟩
    · intro h
      obtain ⟨field, hfield, hle, hlt⟩ := h
      have haddress := fieldOffset?_eq_some_iff.mpr ⟨field, hfield, hle, rfl⟩
      exact ⟨Option.isSome_of_eq_some haddress, (view?_eq_none_iff hfield hvalue).mpr hlt⟩

/-- A tagged value is found to be of its type, so its fields have the addresses that the type
gives them. -/
theorem fieldOffsetOf?_of_tagged {registries : List Registry} {memory : Memory}
    {value : TaggedValue} (h : value.Tagged registries memory)
    (hregistries : BuiltInTurn registries) (name : String) :
    value.registry.fieldOffsetOf? memory value.payload name = fieldOffset? value.type name := by
  rw [fieldOffsetOf?, typeOf?_of_tagged h hregistries]
  rfl

theorem addresses_of_tagged {registries : List Registry} {heap : Heap} {value : TaggedValue}
    (h : value.Tagged registries heap.memory) (hregistries : BuiltInTurn registries)
    (name : String) :
    value.registry.Addresses (value.bytes heap) name value.type
      (value.registry.fieldOffsetOf? heap.memory value.payload name) := by
  rw [fieldOffsetOf?_of_tagged h hregistries]
  exact addresses_fieldOffset? value.registry name (Memory.length_read ..)

/-- Every view of a field has its address, and an address is without a view exactly when the field
ends behind the value. This is so for values whose type is given, and for those that live on the
heap after any run. -/
theorem views_have_addresses (name : String) :
    (∀ (registry : Registry) (type : TypeRecord) (value : Bytes),
      value.length = type.size.toNat →
      registry.Addresses value name type (fieldOffset? type name)) ∧
    ∀ registries actions, BuiltInTurn registries →
      (∀ action ∈ actions, action.Proper registries) →
      ∀ place value, (Workspace.blank.run actions).Holds place value →
        let heap := (Workspace.blank.run actions).heap
        value.registry.Addresses (value.bytes heap) name value.type
          (value.registry.fieldOffsetOf? heap.memory value.payload name) := by
  constructor
  · intro registry type value hvalue
    exact registry.addresses_fieldOffset? name hvalue
  · intro registries actions hregistries hproper place value hheld
    have hsound := Workspace.Sound.blank.run hregistries hproper
    exact addresses_of_tagged (hsound.tagged place value hheld) hregistries name

/-- A base type `a` of four bytes, and a struct `b` of as many whose field `a` starts at the third
of them. -/
def overhanging : Bytes :=
  TypeTable.toBytes .host ⟨[⟨1, 103, 4, .base⟩, ⟨2, 105, 4, .struct [⟨103, 0, 0, 2, 0, 1⟩]⟩]⟩ ++
    (Bytes.ofString "a" ++ [0]) ++ (Bytes.ofString "b" ++ [0])

def overhangingStruct : TypeRecord :=
  (TypeRecord.withMembers ⟨2⟩ ⟨"b", false⟩ 4 .struct 1).pushFields
    [⟨⟨"a", false⟩, ⟨1⟩, 2, 0, 0, false⟩]

def overhangingRecords : List TypeRecord :=
  [.withMembers ⟨1⟩ ⟨"a", false⟩ 4 .base 0, overhangingStruct]

/-- A value of the struct has an address of the field `a`, and no view of it. -/
theorem fieldOffset?_overhanging :
    ∃ registry type, load overhanging ⟨false, .raw⟩ 0 = .ok registry ∧
      registry.typeByName? "b" = some type ∧
      (List.replicate 4 0 : Bytes).length = type.size.toNat ∧
      fieldOffset? type "a" = some 2 ∧
      registry.view? (List.replicate 4 0) "a" type = none :=
  ⟨ofRecords 2 overhangingRecords 0, overhangingStruct, by decide +kernel, by decide +kernel,
    by decide +kernel, by decide +kernel, by decide +kernel⟩

/-- The address without a view, and one on the heap: that of the pointer in a live value of
`Workspace.selfReference`, which starts where the value does. -/
theorem views_have_addresses_overhanging :
    (List.replicate 4 0 : Bytes).length = overhangingStruct.size.toNat ∧
    (ofRecords 2 overhangingRecords 0).Addresses (List.replicate 4 0) "a" overhangingStruct
      (fieldOffset? overhangingStruct "a") ∧
    ∃ value, (Workspace.blank.run Workspace.twinRun).Holds 0 value ∧
      value.type = Workspace.selfReference ∧
      value.registry.Addresses (value.bytes (Workspace.blank.run Workspace.twinRun).heap) "t"
        value.type (value.registry.fieldOffsetOf?
          (Workspace.blank.run Workspace.twinRun).heap.memory value.payload "t") := by
  have hvalue : (List.replicate 4 0 : Bytes).length = overhangingStruct.size.toNat := by
    decide +kernel
  have hlive : Workspace.LiveAfter Workspace.twinRun (Workspace.ofTwin 0 1 .system) 4128 :=
    ⟨[], _, _, rfl, rfl, by decide +kernel, by decide⟩
  have hheld := (Workspace.holds_run_iff Workspace.builtInTurn_twins
    Workspace.proper_twinRun).mpr ⟨_, _, hlive, rfl, rfl⟩
  refine ⟨hvalue, (views_have_addresses "a").1 _ _ _ hvalue, _, hheld, rfl, ?_⟩
  exact (views_have_addresses "t").2 _ _ Workspace.builtInTurn_twins Workspace.proper_twinRun 0 _
    hheld

end Registry

end TypeAtlas
