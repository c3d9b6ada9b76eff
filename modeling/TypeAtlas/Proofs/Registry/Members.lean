import TypeAtlas.Registry.Record

/-!
# Records and their members

A record that was announced as many members as are pushed holds all of them, in order, and
its index knows each name under the position of the last member that carries it. No push is
refused on the way.
-/

namespace TypeAtlas

def NameIndex.insertFrom : NameIndex → Nat → List Name → NameIndex
  | index, _, [] => index
  | index, position, name :: rest => (index.insert name position).insertFrom (position + 1) rest

def Members.names : Members → List Name
  | none => []
  | fields entries => entries.map (·.name)
  | enumerators entries => entries.map (·.name)

namespace TypeRecord

def ofMembers (id : TypeId) (name : Name) (size : UInt64) (kind : TypeKind)
    (members : Members) : TypeRecord :=
  let vacant := withMembers id name size kind members.size
  { vacant with
    members := members
    memberIndex := vacant.memberIndex.map fun index => index.insertFrom 0 members.names }

/-! ## Pushes -/

variable {record : TypeRecord}

theorem pushField_of_lt {before : List Field} (hmembers : record.members = .fields before)
    (hroom : before.length < record.capacity) (field : Field) :
    record.pushField field = (true,
      { record with
        members := .fields (before ++ [field])
        memberIndex := record.memberIndex.map (·.insert field.name before.length) }) := by
  have hnot : ¬ record.capacity ≤ before.length := by omega
  simp only [pushField, hmembers, if_neg hnot]

theorem pushEnumerator_of_lt {before : List Enumerator}
    (hmembers : record.members = .enumerators before)
    (hroom : before.length < record.capacity) (enumerator : Enumerator) :
    record.pushEnumerator enumerator = (true,
      { record with
        members := .enumerators (before ++ [enumerator])
        memberIndex := record.memberIndex.map (·.insert enumerator.name before.length) }) := by
  have hnot : ¬ record.capacity ≤ before.length := by omega
  simp only [pushEnumerator, hmembers, if_neg hnot]

/-- Members that are pushed one after the other, with room for all of them, are all taken. -/
theorem foldl_push_eq {wrap : List α → Members} {nameOf : α → Name}
    {push : TypeRecord → α → TypeRecord}
    (hpush : ∀ {record : TypeRecord} {before : List α}, record.members = wrap before →
      before.length < record.capacity → ∀ member, push record member =
        { record with
          members := wrap (before ++ [member])
          memberIndex := record.memberIndex.map (·.insert (nameOf member) before.length) })
    {before : List α} (hmembers : record.members = wrap before) {members : List α}
    (hroom : before.length + members.length ≤ record.capacity) :
    members.foldl push record =
      { record with
        members := wrap (before ++ members)
        memberIndex := record.memberIndex.map fun index =>
          index.insertFrom before.length (members.map nameOf) } := by
  induction members generalizing record before with
  | nil =>
      rw [List.append_nil, ← hmembers]
      cases hindex : record.memberIndex <;> simp [NameIndex.insertFrom, ← hindex]
  | cons member rest ih =>
      rw [List.length_cons] at hroom
      rw [List.foldl_cons, hpush hmembers (by omega)]
      rw [ih rfl (by simp only [List.length_append, List.length_singleton]; omega)]
      simp [NameIndex.insertFrom, Function.comp_def]

variable (id : TypeId) (name : Name) (size : UInt64)

theorem withMembers_base : withMembers id name size .base 0 = ofMembers id name size .base .none :=
  rfl

theorem pushFields_withMembers {kind : TypeKind} (hkind : kind.hasFields = true)
    (fields : List Field) :
    (withMembers id name size kind fields.length).pushFields fields =
      ofMembers id name size kind (.fields fields) := by
  have hempty : (withMembers id name size kind fields.length).members = .fields [] := by
    cases kind <;> first | rfl | cases hkind
  have hroom : (withMembers id name size kind fields.length).capacity = fields.length := by
    cases kind <;> first | rfl | cases hkind
  have hfits : ([] : List Field).length + fields.length ≤
      (withMembers id name size kind fields.length).capacity := by simp [hroom]
  have hpush := foldl_push_eq (fun hmembers hlt field =>
    congrArg Prod.snd (pushField_of_lt hmembers hlt field)) hempty hfits
  exact hpush

theorem pushEnumerators_withMembers (enumerators : List Enumerator) :
    (withMembers id name size .enum enumerators.length).pushEnumerators enumerators =
      ofMembers id name size .enum (.enumerators enumerators) := by
  have hempty : (withMembers id name size .enum enumerators.length).members =
      .enumerators [] := rfl
  have hfits : ([] : List Enumerator).length + enumerators.length ≤
      (withMembers id name size .enum enumerators.length).capacity := by simp [withMembers]
  have hpush := foldl_push_eq (fun hmembers hlt enumerator =>
    congrArg Prod.snd (pushEnumerator_of_lt hmembers hlt enumerator)) hempty hfits
  exact hpush

/-! ## What a record of members holds -/

@[simp] theorem id_ofMembers (kind : TypeKind) (members : Members) :
    (ofMembers id name size kind members).id = id := rfl

@[simp] theorem kind_ofMembers (kind : TypeKind) (members : Members) :
    (ofMembers id name size kind members).kind = kind := rfl

end TypeRecord

end TypeAtlas
