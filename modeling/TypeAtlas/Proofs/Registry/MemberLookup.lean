import TypeAtlas.Proofs.NameIndex.FiniteMap
import TypeAtlas.Proofs.Registry.Copying
import TypeAtlas.Proofs.Registry.Safety
import TypeAtlas.Proofs.Registry.Surroundings
import TypeAtlas.Proofs.Registry.TakenIds

/-!
# Members by name

Members are pushed to a record one after the other. Those that go with its kind are accepted as
long as there is room, and any other push changes nothing. The index keeps in step with the list:
a name leads to the position of the last member that carries it. Loaded records are made by
pushes, so a look-up in one of them answers from the last member of that name in its entry.
-/

namespace TypeAtlas

def Members.places (members : Members) : List (String × Nat) :=
  members.names.zipIdx.map fun place => (place.1.text, place.2)

theorem Members.places_fields (entries : List Field) :
    (Members.fields entries).places =
      entries.zipIdx.map fun entry => (entry.1.name.text, entry.2) := by
  simp [places, names, List.zipIdx_map]

theorem Members.places_enumerators (entries : List Enumerator) :
    (Members.enumerators entries).places =
      entries.zipIdx.map fun entry => (entry.1.name.text, entry.2) := by
  simp [places, names, List.zipIdx_map]

theorem Members.length_names (members : Members) : members.names.length = members.size := by
  cases members <;> simp [names, size]

namespace TypeRecord

/-! ## Pushes -/

inductive Push where
  | field (member : Field)
  | enumerator (member : Enumerator)
  deriving DecidableEq, Repr

namespace Push

def name : Push → Name
  | .field member => member.name
  | .enumerator member => member.name

def field? : Push → Option Field
  | .field member => some member
  | .enumerator _ => none

def enumerator? : Push → Option Enumerator
  | .field _ => none
  | .enumerator member => some member

/-- Structs and unions take fields, enums take enumerators, and base types take nothing. -/
def suits (kind : TypeKind) : Push → Bool
  | .field _ => kind.hasFields
  | .enumerator _ => kind == .enum

theorem suits_base (push : Push) : push.suits .base = false := by
  cases push <;> rfl

/-- Some members with the pushed one behind them, if it is of their sort. -/
def behind? : Push → Members → Option Members
  | .field member, .fields entries => some (.fields (entries ++ [member]))
  | .enumerator member, .enumerators entries => some (.enumerators (entries ++ [member]))
  | _, _ => none

theorem isSome_behind?_iff {kind : TypeKind} {members : Members} (h : members.Suits kind)
    (push : Push) : (push.behind? members).isSome ↔ push.suits kind = true := by
  cases kind with
  | base =>
    cases h
    cases push <;> simp [behind?, suits, TypeKind.hasFields]
  | struct | union =>
    obtain ⟨fields, rfl⟩ := h
    cases push <;> simp [behind?, suits, TypeKind.hasFields]
  | enum =>
    obtain ⟨enumerators, rfl⟩ := h
    cases push <;> simp [behind?, suits, TypeKind.hasFields]

variable {push : Push} {before after : Members}

theorem suits_of_behind? (h : push.behind? before = some after) {kind : TypeKind}
    (hbefore : before.Suits kind) : after.Suits kind := by
  cases kind with
  | base =>
    cases hbefore
    cases push <;> cases h
  | struct | union =>
    obtain ⟨fields, rfl⟩ := hbefore
    cases push <;> cases h
    exact ⟨_, rfl⟩
  | enum =>
    obtain ⟨enumerators, rfl⟩ := hbefore
    cases push <;> cases h
    exact ⟨_, rfl⟩

theorem names_of_behind? (h : push.behind? before = some after) :
    after.names = before.names ++ [push.name] := by
  cases push <;> cases before <;> cases h <;> simp [Members.names, name]

theorem size_of_behind? (h : push.behind? before = some after) :
    after.size = before.size + 1 := by
  cases push <;> cases before <;> cases h <;> simp [Members.size]

/-- The names with their positions go one further. -/
theorem places_of_behind? (h : push.behind? before = some after) :
    after.places = before.places ++ [(push.name.text, before.size)] := by
  rw [Members.places, names_of_behind? h, List.zipIdx_append, List.map_append,
    before.length_names, Nat.zero_add]
  rfl

end Push

variable (record : TypeRecord)

def push : Push → Bool × TypeRecord
  | .field member => record.pushField member
  | .enumerator member => record.pushEnumerator member

/-- The record with other members, the last of which is known to the index under its name. -/
def withBehind (push : Push) (members : Members) : TypeRecord :=
  { record with
    members := members
    memberIndex := record.memberIndex.map (·.insert push.name record.members.size) }

/-- A push is accepted if the member is of the sort held and there is room for it; it is put
behind the others and into the index. Any other push is refused, and nothing changes. -/
theorem push_cases (push : Push) :
    (∃ members, push.behind? record.members = some members ∧
      record.members.size < record.capacity ∧
      record.push push = (true, record.withBehind push members)) ∨
    ((push.behind? record.members = none ∨ record.capacity ≤ record.members.size) ∧
      record.push push = (false, record)) := by
  obtain ⟨id, name, size, kind, members, memberIndex, capacity⟩ := record
  cases push <;> cases members
  case field.fields member entries =>
    by_cases hfull : capacity ≤ entries.length
    · exact .inr ⟨.inr hfull, by simp [TypeRecord.push, pushField, hfull]⟩
    · exact .inl ⟨_, rfl, Nat.lt_of_not_le hfull, by
        simp [TypeRecord.push, pushField, withBehind, hfull, Push.name, Members.size]⟩
  case enumerator.enumerators member entries =>
    by_cases hfull : capacity ≤ entries.length
    · exact .inr ⟨.inr hfull, by simp [TypeRecord.push, pushEnumerator, hfull]⟩
    · exact .inl ⟨_, rfl, Nat.lt_of_not_le hfull, by
        simp [TypeRecord.push, pushEnumerator, withBehind, hfull, Push.name, Members.size]⟩
  all_goals exact .inr ⟨.inl rfl, rfl⟩

def pushAll (pushes : List Push) : TypeRecord :=
  pushes.foldl (fun record push => (record.push push).2) record

def accepted : TypeRecord → List Push → List Push
  | _, [] => []
  | record, push :: rest =>
    (if (record.push push).1 then [push] else []) ++ accepted (record.push push).2 rest

theorem kind_push (push : Push) : (record.push push).2.kind = record.kind := by
  rcases record.push_cases push with ⟨members, -, -, heq⟩ | ⟨-, heq⟩
  · rw [heq]
    rfl
  · rw [heq]

theorem capacity_push (push : Push) : (record.push push).2.capacity = record.capacity := by
  rcases record.push_cases push with ⟨members, -, -, heq⟩ | ⟨-, heq⟩
  · rw [heq]
    rfl
  · rw [heq]

theorem kind_pushAll (pushes : List Push) : (record.pushAll pushes).kind = record.kind := by
  induction pushes generalizing record with
  | nil => rfl
  | cons push rest ih => exact (ih (record.push push).2).trans (record.kind_push push)

theorem capacity_pushAll (pushes : List Push) :
    (record.pushAll pushes).capacity = record.capacity := by
  induction pushes generalizing record with
  | nil => rfl
  | cons push rest ih => exact (ih (record.push push).2).trans (record.capacity_push push)

theorem push_of_refused {push : Push} (h : (record.push push).1 = false) :
    (record.push push).2 = record := by
  rcases record.push_cases push with ⟨members, -, -, heq⟩ | ⟨-, heq⟩
  · rw [heq] at h
    cases h
  · rw [heq]

theorem fields_push (push : Push) :
    (record.push push).2.fields =
      record.fields ++ if (record.push push).1 then push.field?.toList else [] := by
  rcases record.push_cases push with ⟨members, hbehind, -, heq⟩ | ⟨-, heq⟩
  · rw [heq]
    cases push <;> cases hmembers : record.members <;> rw [hmembers] at hbehind <;>
      cases hbehind <;> simp [fields, withBehind, hmembers, Push.field?]
  · rw [heq]
    simp

theorem enumerators_push (push : Push) :
    (record.push push).2.enumerators =
      record.enumerators ++ if (record.push push).1 then push.enumerator?.toList else [] := by
  rcases record.push_cases push with ⟨members, hbehind, -, heq⟩ | ⟨-, heq⟩
  · rw [heq]
    cases push <;> cases hmembers : record.members <;> rw [hmembers] at hbehind <;>
      cases hbehind <;> simp [enumerators, withBehind, hmembers, Push.enumerator?]
  · rw [heq]
    simp

/-- What each push adds to a list is what all that are accepted add to it. -/
theorem held_pushAll {held : TypeRecord → List α} {pick : Push → Option α}
    (hstep : ∀ record push, held (record.push push).2 =
      held record ++ if (record.push push).1 then (pick push).toList else [])
    (pushes : List Push) :
    held (record.pushAll pushes) = held record ++ (record.accepted pushes).filterMap pick := by
  induction pushes generalizing record with
  | nil => simp [pushAll, accepted]
  | cons push rest ih =>
    have hrest := ih (record.push push).2
    rw [hstep record push, List.append_assoc] at hrest
    rw [accepted, List.filterMap_append]
    refine hrest.trans (congrArg _ (congrArg (· ++ _) ?_))
    cases (record.push push).1
    · rfl
    · cases hpick : pick push <;> simp [hpick]

/-! ## Lists and indices in step -/

/-- The members are of the sort that goes with the kind, and the index maps each of their names
to the last position at which it stands. Without an index there are no members. -/
structure InStep (record : TypeRecord) : Prop where
  suits : record.members.Suits record.kind
  indexed : ∀ index, record.memberIndex = some index →
    NameIndex.Maps record.members.places index
  bare : record.memberIndex = none → record.members = .none

theorem inStep_withMembers (id : TypeId) (name : Name) (size : UInt64) (kind : TypeKind)
    (capacity : Nat) : (withMembers id name size kind capacity).InStep := by
  cases kind with
  | base =>
    refine ⟨rfl, ?_, fun _ => rfl⟩
    intro index hindex
    cases hindex
  | struct | union | enum =>
    refine ⟨⟨[], rfl⟩, ?_, ?_⟩
    · intro index hindex
      cases hindex
      exact NameIndex.maps_withCapacity _
    · intro hindex
      cases hindex

variable {record}

theorem InStep.push (h : record.InStep) (push : Push) : (record.push push).2.InStep := by
  rcases record.push_cases push with ⟨members, hbehind, -, heq⟩ | ⟨-, heq⟩
  · rw [heq]
    refine ⟨push.suits_of_behind? hbehind h.suits, ?_, ?_⟩
    · intro index hindex
      obtain ⟨old, hold, rfl⟩ := Option.map_eq_some_iff.mp hindex
      have hnext := (h.indexed old hold).act (.insert push.name record.members.size)
      show NameIndex.Maps members.places _
      rw [push.places_of_behind? hbehind]
      exact hnext
    · intro hindex
      rw [h.bare (Option.map_eq_none_iff.mp hindex)] at hbehind
      cases push <;> cases hbehind
  · rw [heq]
    exact h

theorem InStep.pushAll (h : record.InStep) (pushes : List Push) :
    (record.pushAll pushes).InStep := by
  induction pushes generalizing record with
  | nil => exact h
  | cons push rest ih => exact ih (h.push push)

theorem InStep.accepts_iff (h : record.InStep) (push : Push) :
    (record.push push).1 = true ↔
      push.suits record.kind = true ∧ record.members.size < record.capacity := by
  rw [← push.isSome_behind?_iff h.suits]
  rcases record.push_cases push with ⟨members, hbehind, hroom, heq⟩ | ⟨hno, heq⟩
  · simp [heq, hbehind, hroom]
  · rw [heq]
    rcases hno with hnone | hfull
    · simp [hnone]
    · simp [Nat.not_lt.mpr hfull]

/-- The pushes that are accepted are those that go with the kind, as many as there is room for. -/
theorem InStep.accepted_eq (h : record.InStep) (pushes : List Push) :
    record.accepted pushes =
      (pushes.filter (Push.suits record.kind)).take (record.capacity - record.members.size) := by
  induction pushes generalizing record with
  | nil => simp [accepted]
  | cons push rest ih =>
    have hiff := h.accepts_iff push
    rw [accepted, ih (h.push push), kind_push, capacity_push]
    rcases record.push_cases push with ⟨members, hbehind, hroom, heq⟩ | ⟨-, heq⟩
    · have hsuits := (hiff.mp (by rw [heq])).1
      have hleft : record.capacity - record.members.size =
          (record.capacity - members.size) + 1 := by
        rw [push.size_of_behind? hbehind]
        omega
      rw [heq, List.filter_cons_of_pos hsuits, hleft, List.take_succ_cons]
      rfl
    · rw [heq] at hiff ⊢
      by_cases hsuits : push.suits record.kind = true
      · -- The record is full, and takes nothing more.
        have hfull : record.capacity - record.members.size = 0 := by
          simp only [Bool.false_eq_true, hsuits, true_and, false_iff] at hiff
          omega
        simp [hfull]
      · rw [List.filter_cons_of_neg hsuits]
        rfl

section
variable (id : TypeId) (name : Name) (size : UInt64) (kind : TypeKind) (capacity : Nat)

theorem fields_withMembers : (withMembers id name size kind capacity).fields = [] := by
  cases kind <;> rfl

theorem enumerators_withMembers : (withMembers id name size kind capacity).enumerators = [] := by
  cases kind <;> rfl

theorem accepted_withMembers (pushes : List Push) :
    (withMembers id name size kind capacity).accepted pushes =
      (pushes.filter (Push.suits kind)).take capacity := by
  rw [(inStep_withMembers id name size kind capacity).accepted_eq]
  cases kind with
  | base =>
    have hnone : pushes.filter (Push.suits .base) = [] := by
      rw [List.filter_eq_nil_iff]
      intro push _
      rw [push.suits_base]
      exact Bool.false_ne_true
    show (pushes.filter (Push.suits .base)).take _ = _
    rw [hnone, List.take_nil, List.take_nil]
  | struct | union | enum => rfl

theorem accepts_pushAll_withMembers_iff (pushes : List Push) (push : Push) :
    let record := (withMembers id name size kind capacity).pushAll pushes
    (record.push push).1 = true ↔ push.suits kind = true ∧ record.members.size < capacity := by
  intro record
  have hrecord : record.InStep := (inStep_withMembers id name size kind capacity).pushAll pushes
  have hkind : record.kind = kind := kind_pushAll _ pushes
  have hroom : record.capacity = if kind = .base then 0 else capacity := capacity_pushAll _ pushes
  rw [hrecord.accepts_iff, hkind, hroom]
  by_cases hbase : kind = .base
  · rw [hbase, push.suits_base]
    simp
  · rw [if_neg hbase]

end

/-! ## Look-up -/

/-- A name leads to the last member that carries it, and to none if none does. Only the
enumerators of an enum have values. -/
structure FindsLast (record : TypeRecord) : Prop where
  field : ∀ name, record.field? name = Keyed.last? (·.name.text) record.fields name
  enumerator : ∀ name,
    record.enumerator? name = Keyed.last? (·.name.text) record.enumerators name
  value : ∀ name, record.enumValue? name =
    (Keyed.last? (·.name.text) record.enumerators name).map (·.value)

theorem InStep.memberPosition? (h : record.InStep) (name : String) :
    record.memberPosition? name =
      (Keyed.last? Prod.fst record.members.places name).map Prod.snd := by
  cases hindex : record.memberIndex with
  | none =>
    rw [TypeRecord.memberPosition?, hindex, h.bare hindex]
    rfl
  | some index =>
    simpa [TypeRecord.memberPosition?, hindex] using (h.indexed index hindex).get? name

theorem InStep.findsLast (h : record.InStep) : record.FindsLast := by
  have hfield : ∀ name,
      record.field? name = Keyed.last? (·.name.text) record.fields name := by
    intro name
    rw [field?, h.memberPosition?]
    cases hmembers : record.members with
    | fields entries =>
      simp only [fields, hmembers, Members.places_fields]
      exact Keyed.bind_last?_zipIdx (fun field : Field => field.name.text) entries name
    | none | enumerators entries => simp [fields, hmembers, Keyed.last?]
  have henumerator : ∀ name,
      record.enumerator? name = Keyed.last? (·.name.text) record.enumerators name := by
    intro name
    rw [enumerator?, h.memberPosition?]
    cases hmembers : record.members with
    | enumerators entries =>
      simp only [enumerators, hmembers, Members.places_enumerators]
      exact Keyed.bind_last?_zipIdx (fun enumerator : Enumerator => enumerator.name.text) entries
        name
    | none | fields entries => simp [enumerators, hmembers, Keyed.last?]
  refine ⟨hfield, henumerator, ?_⟩
  intro name
  rw [enumValue?, henumerator]
  split
  · rfl
  · next hother =>
    -- Other kinds hold no enumerators.
    have hnone : record.enumerators = [] := by
      have hsuits := h.suits
      cases hkind : record.kind <;> rw [hkind] at hsuits
      case base => simp [enumerators, show record.members = .none from hsuits]
      case enum => simp [isEnum, hkind] at hother
      all_goals
        obtain ⟨entries, hmembers⟩ := hsuits
        simp [enumerators, hmembers]
    rw [hnone]
    rfl

/-! ## Records that are loaded -/

theorem pushFields_eq_pushAll (record : TypeRecord) (fields : List Field) :
    record.pushFields fields = record.pushAll (fields.map .field) := by
  rw [pushFields, pushAll, List.foldl_map]
  rfl

theorem pushEnumerators_eq_pushAll (record : TypeRecord) (enumerators : List Enumerator) :
    record.pushEnumerators enumerators = record.pushAll (enumerators.map .enumerator) := by
  rw [pushEnumerators, pushAll, List.foldl_map]
  rfl

theorem inStep_ofMembers (id : TypeId) (name : Name) (size : UInt64) {kind : TypeKind}
    {members : Members} (h : members.Suits kind) :
    (ofMembers id name size kind members).InStep := by
  cases kind with
  | base =>
    cases h
    exact inStep_withMembers id name size .base 0
  | struct | union =>
    obtain ⟨fields, rfl⟩ := h
    rw [← pushFields_withMembers id name size rfl, pushFields_eq_pushAll]
    exact (inStep_withMembers ..).pushAll _
  | enum =>
    obtain ⟨enumerators, rfl⟩ := h
    rw [← pushEnumerators_withMembers, pushEnumerators_eq_pushAll]
    exact (inStep_withMembers ..).pushAll _

end TypeRecord

theorem TableEntry.Describes.findsLast {payload : Bytes} {copies : Bool} {entry : TableEntry}
    {record : TypeRecord} (h : entry.Describes payload copies record) : record.FindsLast := by
  rw [h.whole]
  exact (TypeRecord.inStep_ofMembers _ _ _ h.members.suits).findsLast

namespace Registry

variable {bytes : Bytes} {copies : Bool} {framing : Framing} {tag : UInt64} {registry : Registry}

/-- A record of a registry is the one that the last entry of its id describes. -/
theorem exists_last_entry (h : load bytes ⟨copies, framing⟩ tag = .ok registry)
    {record : TypeRecord} (hmem : record ∈ registry.types) :
    ∃ payload table entry, framing.payload bytes = .ok payload ∧
      TypeTable.StandsIn table payload ∧
      Keyed.last? (fun entry : TableEntry => TypeId.mk entry.id) table.entries record.id =
        some entry ∧
      entry.Describes payload copies record := by
  have hload := h
  obtain ⟨payload, hpayload, -⟩ := Outcome.bind_eq_ok.mp h
  rw [load_of_payload (reading_eq_ok_iff.mp hpayload)] at hload
  rcases load_raw_eq_ok_iff.mp hload with ⟨-, rfl⟩ | ⟨table, records, hstands, hmeans, rfl⟩
  · cases hmem
  · have hlast := (mem_types_ofRecords (hstands.id_le hmeans) tag).mp hmem
    have hid : ∀ (entry : TableEntry) (record : TypeRecord),
        entry.Describes payload copies record → TypeId.mk entry.id = record.id := by
      intro entry record hdescribes
      rw [hdescribes.whole]
      rfl
    have hrel := Keyed.rel_last? hmeans hid record.id
    have hfound : Keyed.last? TypeRecord.id records record.id = some record := hlast
    rw [hfound] at hrel
    cases hentry : Keyed.last? (fun entry : TableEntry => TypeId.mk entry.id) table.entries
      record.id with
    | none =>
      rw [hentry] at hrel
      cases hrel
    | some entry =>
      rw [hentry] at hrel
      cases hrel with
      | some hdescribes =>
        exact ⟨payload, table, entry, reading_eq_ok_iff.mp hpayload, hstands, hentry, hdescribes⟩

/-- A detached registry is the one that a load which copies comes to. -/
theorem load_detach (h : load bytes ⟨copies, framing⟩ tag = .ok registry) :
    load bytes ⟨true, framing⟩ tag = .ok registry.detach := by
  have hself := load_counterpart bytes framing copies copies tag tag
  have hcopied := load_counterpart bytes framing copies true tag tag
  rw [h] at hself hcopied
  have hregistry : registry = registry.counterpart copies tag := Except.ok.inj hself
  rw [hcopied, hregistry, detach_counterpart, ← hregistry]
  rfl

/-- The first of the members pushed that go with the kind of a record are held, as many as it was
announced, and a name leads to the last of them that carries it. So it does in every record of a
loaded registry, detached or not, and the record has the members of the last entry of its id. -/
theorem members_in_step :
    (∀ id name size kind capacity pushes,
      let vacant := TypeRecord.withMembers id name size kind capacity
      let record := vacant.pushAll pushes
      (∀ push, ((record.push push).1 = true ↔
          push.suits kind = true ∧ record.members.size < capacity) ∧
        ((record.push push).1 = false → (record.push push).2 = record)) ∧
      vacant.accepted pushes = (pushes.filter (TypeRecord.Push.suits kind)).take capacity ∧
      record.fields = (vacant.accepted pushes).filterMap TypeRecord.Push.field? ∧
      record.enumerators = (vacant.accepted pushes).filterMap TypeRecord.Push.enumerator? ∧
      record.FindsLast) ∧
    ∀ bytes copies framing tag registry, load bytes ⟨copies, framing⟩ tag = .ok registry →
      ∀ held ∈ [registry, registry.detach], ∀ record ∈ held.types, record.FindsLast ∧
        ∃ payload table entry owned, framing.payload bytes = .ok payload ∧
          TypeTable.StandsIn table payload ∧
          Keyed.last? (fun entry : TableEntry => TypeId.mk entry.id) table.entries record.id =
            some entry ∧
          entry.Describes payload owned record := by
  constructor
  · intro id name size kind capacity pushes vacant record
    have hvacant : vacant.InStep := TypeRecord.inStep_withMembers id name size kind capacity
    have hfields := vacant.held_pushAll TypeRecord.fields_push pushes
    have henumerators := vacant.held_pushAll TypeRecord.enumerators_push pushes
    rw [TypeRecord.fields_withMembers, List.nil_append] at hfields
    rw [TypeRecord.enumerators_withMembers, List.nil_append] at henumerators
    refine ⟨?_, TypeRecord.accepted_withMembers .., hfields, henumerators,
      (hvacant.pushAll pushes).findsLast⟩
    intro push
    exact ⟨TypeRecord.accepts_pushAll_withMembers_iff .., record.push_of_refused⟩
  · intro bytes copies framing tag registry h held hheld record hmem
    have hload : ∃ owned, load bytes ⟨owned, framing⟩ tag = .ok held := by
      rw [List.mem_pair] at hheld
      rcases hheld with rfl | rfl
      · exact ⟨copies, h⟩
      · exact ⟨true, load_detach h⟩
    obtain ⟨owned, hload⟩ := hload
    obtain ⟨payload, table, entry, hpayload, hstands, hentry, hdescribes⟩ :=
      exists_last_entry hload hmem
    exact ⟨hdescribes.findsLast, payload, table, entry, owned, hpayload, hstands, hentry,
      hdescribes⟩

/-- A struct with two fields of one name. -/
def repeated : Bytes :=
  TypeTable.toBytes .host
      ⟨[⟨1, 115, 8, .struct [⟨117, 0, 0, 0, 0, 0⟩, ⟨117, 0, 0, 4, 0, 0⟩]⟩]⟩ ++
    (Bytes.ofString "a" ++ [0]) ++ (Bytes.ofString "b" ++ [0])

def repeatedFields : List Field :=
  [⟨⟨"b", false⟩, .unresolved, 0, 0, 0, false⟩, ⟨⟨"b", false⟩, .unresolved, 4, 0, 0, false⟩]

def repeatedRecord : TypeRecord :=
  (TypeRecord.withMembers ⟨1⟩ ⟨"a", false⟩ 8 .struct 2).pushFields repeatedFields

theorem members_in_step_repeated :
    ∃ registry, load repeated ⟨false, .raw⟩ 0 = .ok registry ∧
      registry.detach ∈ [registry, registry.detach] ∧
      repeatedRecord.detach ∈ registry.detach.types ∧
      repeatedRecord.detach.FindsLast ∧
      (repeatedRecord.detach.field? "b").map (·.offset) = some 4 := by
  have hload : load repeated ⟨false, .raw⟩ 0 = .ok (ofRecords 1 [repeatedRecord] 0) := by
    decide +kernel
  have hmem : repeatedRecord.detach ∈ (ofRecords 1 [repeatedRecord] 0).detach.types := by
    decide +kernel
  have hheld : (ofRecords 1 [repeatedRecord] 0).detach ∈
      [ofRecords 1 [repeatedRecord] 0, (ofRecords 1 [repeatedRecord] 0).detach] := by simp
  have hlast := (members_in_step.2 repeated false .raw 0 _ hload _ hheld _ hmem).1
  refine ⟨_, hload, hheld, hmem, hlast, ?_⟩
  rw [hlast.field]
  rfl

end Registry

end TypeAtlas
