import Mathlib.Data.List.Induction
import TypeAtlas.Proofs.Heap.Holdings

/-!
# Actions and runs

What each action does to the values held and to the heap. The blocks and headers of values
stay sound under one action, and so under every run; and the values that are held after a run
are those that the run itself shows to live.
-/

namespace TypeAtlas

theorem Holding.payload?_of_value? {holding : Holding} {value : TaggedValue}
    (h : holding.value? = some value) : holding.payload? = some value.payload := by
  cases holding with
  | raw _ => cases h; rfl
  | owned _ _ => cases h; rfl
  | _ => cases h

/-! ## Making -/

theorem Action.Proper.making {registries : List Registry} {action : Action} {making : Making}
    (h : action.Proper registries) (hmaking : action.making? = some making) :
    making.Proper registries := by
  cases action with
  | make _ _ _ _ | makeOwned _ _ _ _ => cases hmaking; exact h
  | _ => cases hmaking

theorem Action.releases_of_making {action : Action} {making : Making}
    (h : action.making? = some making) : action.releases making.place = true := by
  cases action with
  | make _ _ _ _ | makeOwned _ _ _ _ => cases h; exact beq_self_eq_true _
  | _ => cases h

/-- What frees a place frees nothing else, or makes something there. -/
theorem Action.eq_free_of_releases {action : Action} {place : Nat}
    (h : action.releases place = true) :
    action = .free place ∨ ∃ making, action.making? = some making ∧ making.place = place := by
  cases action with
  | make _ _ _ _ | makeOwned _ _ _ _ => exact .inr ⟨_, rfl, eq_of_beq h⟩
  | free _ =>
      cases eq_of_beq h
      exact .inl rfl
  | _ => cases h

/-- What a making comes to, after its place was cleared: the allocator is not asked, or refuses,
or a value is made and held. The type of what is held is a record of the same id, and the same
record if it is genuine. -/
inductive Making.Outcome (making : Making) (cleared : Workspace) : Workspace → Prop
  | unasked : Outcome making cleared cleared
  | refused (size : Nat) :
    Outcome making cleared { cleared with
      heap := { cleared.heap with
        calls := .refused making.allocator.id size :: cleared.heap.calls } }
  | granted {payload : Nat} {record : TypeRecord} {holding : Holding}
    (may : making.registry.MayAllocate making.type)
    (found : record = making.type.record ∨
      making.registry.typeById? making.type.record.id = some record)
    (behind : TagHeader.length ≤ payload)
    (placed : making.allocator.place cleared.heap (making.value payload).block.size =
      some (making.value payload).block.base)
    (held : holding.value? = some { making.value payload with type := record }) :
    Outcome making cleared
      ({ cleared with heap := (making.value payload).installed cleared.heap }.put making.place
        holding)

/-- The look-up behind the allocation of an owned value does not fail. -/
theorem Workspace.act_of_making {action : Action} {making : Making}
    (h : action.making? = some making) (workspace : Workspace) :
    making.Outcome (workspace.clear making.place) (workspace.act action) := by
  -- both ways of making begin with the same allocation
  rcases making.registry.allocate_cases (workspace.clear making.place).heap making.type
      making.allocator with ⟨-, hunasked⟩ | ⟨-, -, hrefused⟩ | ⟨base, hmay, hplace, hgranted⟩
  · cases action with
    | make _ _ _ _ =>
        cases h
        simp only [act, Workspace.make, TaggedValue.make, hunasked]
        exact .unasked
    | makeOwned _ _ _ _ =>
        cases h
        simp only [act, Workspace.makeOwned, TaggedValue.makeOwned, hunasked]
        exact .unasked
    | _ => cases h
  · cases action with
    | make _ _ _ _ =>
        cases h
        simp only [act, Workspace.make, TaggedValue.make, hrefused]
        exact .refused _
    | makeOwned _ _ _ _ =>
        cases h
        simp only [act, Workspace.makeOwned, TaggedValue.makeOwned, hrefused]
        exact .refused _
    | _ => cases h
  · have hbehind : TagHeader.length ≤ base + TagHeader.length := Nat.le_add_left ..
    have hbase : base = (making.value (base + TagHeader.length)).block.base :=
      (Nat.add_sub_cancel ..).symm
    rw [hbase] at hplace
    cases action with
    | make _ _ _ _ =>
        cases h
        simp only [act, Workspace.make, TaggedValue.make, hgranted]
        exact .granted hmay (.inl rfl) hbehind hplace rfl
    | makeOwned _ _ _ _ =>
        cases h
        obtain ⟨-, -, record, hrecord⟩ := hmay.own
        simp only [act, Workspace.makeOwned, TaggedValue.makeOwned, hgranted, hrecord]
        exact .granted hmay (.inr hrecord) hbehind hplace rfl
    | _ => cases h

/-- A genuine record that a registry may allocate is found under its own id. -/
theorem Making.Proper.own {registries : List Registry} {making : Making}
    (h : making.Proper registries) (hmay : making.registry.MayAllocate making.type) :
    making.registry.typeById? making.type.record.id = some making.type.record := by
  obtain ⟨hhome, hslot, -⟩ := hmay.own
  rw [← hslot]
  exact h.type making.registry h.registry hhome

theorem Making.Proper.eq_of_found {registries : List Registry} {making : Making}
    (h : making.Proper registries) (hmay : making.registry.MayAllocate making.type)
    {record : TypeRecord} (hfound : record = making.type.record ∨
      making.registry.typeById? making.type.record.id = some record) :
    record = making.type.record := by
  rcases hfound with hrecord | hrecord
  · exact hrecord
  · exact Option.some.inj (hrecord.symm.trans (h.own hmay))

namespace Making.Outcome

variable {making : Making} {cleared after : Workspace} (h : making.Outcome cleared after)
include h

theorem holds_elsewhere {place : Nat} {value : TaggedValue} (hne : place ≠ making.place) :
    after.Holds place value ↔ cleared.Holds place value := by
  cases h with
  | unasked => exact Iff.rfl
  | refused _ => exact Iff.rfl
  | granted =>
      rw [Workspace.holds_put, if_neg hne]
      exact Iff.rfl

/-- What is held where a value was to be made is that value, at the address granted. -/
theorem holds_place {registries : List Registry} (hproper : making.Proper registries)
    (hempty : cleared.places making.place = .empty) {value : TaggedValue} :
    after.Holds making.place value ↔
      ∃ payload, (after.places making.place).payload? = some payload ∧
        value = making.value payload := by
  have hvacant : ∀ other : Workspace, other.places making.place = .empty →
      (other.Holds making.place value ↔ ∃ payload,
        (other.places making.place).payload? = some payload ∧ value = making.value payload) := by
    intro other hother
    simp [Workspace.Holds, hother, Holding.value?, Holding.payload?]
  cases h with
  | unasked => exact hvacant _ hempty
  | refused _ => exact hvacant _ hempty
  | @granted payload record holding hmay hfound _ _ hheld =>
      cases hproper.eq_of_found hmay hfound
      have hpayload := Holding.payload?_of_value? hheld
      rw [Workspace.holds_put, if_pos rfl, hheld, Option.some_inj]
      simp only [Workspace.put, if_pos, hpayload, Option.some_inj]
      constructor
      · rintro rfl
        exact ⟨payload, rfl, rfl⟩
      · rintro ⟨granted, rfl, rfl⟩
        rfl

end Making.Outcome

namespace Workspace

/-! ## Ownership -/

section
variable {registries : List Registry} {workspace : Workspace} {place other : Nat}
  {value : TaggedValue}

@[simp] theorem heap_giveUp (workspace : Workspace) (place : Nat) :
    (workspace.giveUp place).2.heap = workspace.heap := by
  rw [giveUp]
  split <;> rfl

theorem holds_giveUp :
    (workspace.giveUp place).2.Holds other value ↔ workspace.Holds other value := by
  rw [giveUp]
  split
  · next held fresh hplace =>
      rw [holds_put]
      split
      · next hother => rw [hother, Holds, hplace]; rfl
      · exact Iff.rfl
  · exact Iff.rfl

@[simp] theorem heap_adopt (workspace : Workspace) (place : Nat) (registry : Registry) :
    (workspace.adopt place registry).2.heap = workspace.heap := by
  rw [adopt]
  split
  · split <;> rfl
  · rfl

/-- What a registry finds at the address of a value that is held: the value itself if it made
it, and nothing otherwise. -/
theorem Sound.at?_of_holds (h : workspace.Sound registries)
    (hregistries : Registry.BuiltInTurn registries) (hheld : workspace.Holds place value)
    {registry : Registry} (hmem : registry ∈ registries) :
    TaggedValue.at? registry workspace.heap value.payload value.allocator =
      if registry = value.registry then some value else none := by
  have htagged := h.tagged place value hheld
  split
  · next hsame =>
      subst hsame
      rw [TaggedValue.at?, Registry.typeOf?_of_tagged htagged hregistries]
      rfl
  · next hother =>
      have hnone := Registry.header?_of_tagged_elsewhere htagged hregistries hmem hother
      rw [TaggedValue.at?, Registry.typeOf?_of_header?_none hnone]
      rfl

theorem Sound.holds_adopt (h : workspace.Sound registries)
    (hregistries : Registry.BuiltInTurn registries) {registry : Registry}
    (hmem : registry ∈ registries) :
    (workspace.adopt place registry).2.Holds other value ↔ workspace.Holds other value := by
  rw [adopt]
  split
  · next held hplace =>
      have hheld : workspace.Holds place held := by
        rw [Holds, hplace]
        rfl
      rw [h.at?_of_holds hregistries hheld hmem]
      by_cases hsame : registry = held.registry
      · rw [if_pos hsame, holds_put]
        split
        · next hother => rw [hother, Holds, hplace]; rfl
        · exact Iff.rfl
      · rw [if_neg hsame]
  · exact Iff.rfl

end

/-! ## Storing -/

/-- Nothing but bytes in the payload of one held value has changed, if anything has. -/
def Stores (workspace after : Workspace) : Prop :=
  after = workspace ∨ ∃ place value memory, workspace.Holds place value ∧
    Memory.SameOutside value.payloadBlock workspace.heap.memory memory ∧
    after = { workspace with heap := { workspace.heap with memory := memory } }

theorem stores_poke (workspace : Workspace) (place offset : Nat) (bytes : Bytes) :
    workspace.Stores (workspace.poke place offset bytes).2 := by
  rw [poke]
  cases hplace : (workspace.places place).value? with
  | none => exact .inl rfl
  | some value =>
      simp only
      by_cases hfits : offset + bytes.length ≤ value.size
      · rw [if_pos hfits]
        refine .inr ⟨place, value, _, hplace, ?_, rfl⟩
        apply Memory.sameOutside_write
        · exact Nat.le_add_right ..
        · simp only [TaggedValue.payloadBlock]
          omega
      · rw [if_neg hfits]
        exact .inl rfl

theorem stores_edit (workspace : Workspace) (place : Nat) (name : String)
    (edits : List FieldEdit) : workspace.Stores (workspace.edit place name edits).2 := by
  rw [edit]
  cases hplace : (workspace.places place).value? with
  | none => exact .inl rfl
  | some value =>
      cases hview : value.view? workspace.heap name with
      | none =>
          simp only [hview]
          exact .inl rfl
      | some view =>
          simp only [hview]
          exact .inr ⟨place, value, _, hplace, TaggedValue.sameOutside_store _ _, rfl⟩

theorem Stores.holds {workspace after : Workspace} (h : workspace.Stores after) {place : Nat}
    {value : TaggedValue} : after.Holds place value ↔ workspace.Holds place value := by
  rcases h with rfl | ⟨_, _, _, -, -, rfl⟩ <;> exact Iff.rfl

theorem Sound.stores {registries : List Registry} {workspace after : Workspace}
    (h : workspace.Sound registries) (hafter : workspace.Stores after) :
    after.Sound registries := by
  rcases hafter with rfl | ⟨place, value, memory, hheld, hsame, rfl⟩
  · exact h
  · exact h.store hheld hsame

theorem holds_scribble {workspace : Workspace} {address place : Nat} {bytes : Bytes}
    {value : TaggedValue} :
    (workspace.scribble address bytes).Holds place value ↔ workspace.Holds place value := by
  rw [scribble]
  split <;> exact Iff.rfl

/-! ## One action -/

section
variable {registries : List Registry} (hregistries : Registry.BuiltInTurn registries)
  {workspace : Workspace} {action : Action} (hproper : action.Proper registries)

theorem Sound.outcome {making : Making} (hmaking : making.Proper registries)
    {cleared after : Workspace} (h : cleared.Sound registries)
    (hvacant : ∀ value, ¬ cleared.Holds making.place value)
    (hafter : making.Outcome cleared after) : after.Sound registries := by
  cases hafter with
  | unasked => exact h
  | refused size => exact h.refused _ _
  | granted hmay hfound hbehind hplaced hheld =>
      cases hmaking.eq_of_found hmay hfound
      exact h.installed hvacant hmaking.registry (hmaking.own hmay) hbehind
        (hmaking.allocator _ _ _ hplaced) hheld

include hregistries hproper in
theorem Sound.act (h : workspace.Sound registries) : (workspace.act action).Sound registries := by
  cases action with
  | make place _ _ _ | makeOwned place _ _ _ =>
      apply Sound.outcome hproper (h.clear place)
      · intro value hheld
        exact (holds_clear.mp hheld).1 rfl
      · exact act_of_making rfl workspace
  | free place => exact h.free place
  | giveUp place =>
      apply h.of_heap_eq (heap_giveUp workspace place)
      intro other value
      exact holds_giveUp
  | adopt place registry =>
      apply h.of_heap_eq (heap_adopt workspace place registry)
      intro other value
      exact h.holds_adopt hregistries hproper
  | poke place offset bytes => exact h.stores (stores_poke workspace place offset bytes)
  | edit place name edits => exact h.stores (stores_edit workspace place name edits)
  | elsewhere address bytes => exact h.scribble address bytes

include hregistries hproper in
/-- A place that an action does not free holds what it held. -/
theorem Sound.holds_act (h : workspace.Sound registries) {place : Nat} {value : TaggedValue}
    (hkept : action.releases place = false) :
    (workspace.act action).Holds place value ↔ workspace.Holds place value := by
  cases hmaking : action.making? with
  | some making =>
      have hne : place ≠ making.place := by
        rintro rfl
        rw [Action.releases_of_making hmaking] at hkept
        cases hkept
      have houtcome := act_of_making hmaking workspace
      exact (houtcome.holds_elsewhere hne).trans (holds_clear.trans (and_iff_right hne))
  | none =>
      cases action with
      | make _ _ _ _ | makeOwned _ _ _ _ => cases hmaking
      | free other =>
          have hne : place ≠ other := by
            rintro rfl
            rw [Action.releases, beq_self_eq_true] at hkept
            cases hkept
          exact holds_free.trans (and_iff_right hne)
      | giveUp other => exact holds_giveUp
      | adopt other registry => exact h.holds_adopt hregistries hproper
      | poke other offset bytes => exact (stores_poke workspace other offset bytes).holds
      | edit other name edits => exact (stores_edit workspace other name edits).holds
      | elsewhere address bytes => exact holds_scribble

end

/-! ## Runs -/

theorem run_concat (workspace : Workspace) (actions : List Action) (action : Action) :
    workspace.run (actions ++ [action]) = (workspace.run actions).act action :=
  List.foldl_concat ..

theorem Sound.run {registries : List Registry} (hregistries : Registry.BuiltInTurn registries)
    {actions : List Action} (hproper : ∀ action ∈ actions, action.Proper registries)
    {workspace : Workspace} (h : workspace.Sound registries) :
    (workspace.run actions).Sound registries := by
  induction actions generalizing workspace with
  | nil => exact h
  | cons action rest ih =>
      have hstep := h.act hregistries (hproper action List.mem_cons_self)
      exact ih (fun next hnext => hproper next (List.mem_cons_of_mem _ hnext)) hstep

/-- What lives behind one more action: what lived and is not freed, and what is made. -/
theorem liveAfter_concat {actions : List Action} {action : Action} {making : Making}
    {payload : Nat} :
    LiveAfter (actions ++ [action]) making payload ↔
      (LiveAfter actions making payload ∧ action.releases making.place = false) ∨
      (action.making? = some making ∧
        ((blank.run (actions ++ [action])).places making.place).payload? = some payload) := by
  constructor
  · rintro ⟨earlier, made, later, hactions, hmaking, hpayload, hkept⟩
    rcases List.eq_nil_or_concat' later with rfl | ⟨between, _, rfl⟩
    · obtain ⟨rfl, hlast⟩ := List.append_inj' hactions rfl
      cases hlast
      exact .inr ⟨hmaking, hpayload⟩
    · rw [← List.cons_append, ← List.append_assoc] at hactions
      obtain ⟨rfl, hlast⟩ := List.append_inj' hactions rfl
      cases hlast
      refine .inl ⟨⟨earlier, made, between, rfl, hmaking, hpayload, ?_⟩, ?_⟩
      · exact fun next hnext => hkept next (List.mem_append_left _ hnext)
      · exact hkept _ (List.mem_append_right _ List.mem_cons_self)
  · rintro (⟨⟨earlier, made, later, rfl, hmaking, hpayload, hkept⟩, hlast⟩ | ⟨hmaking, hpayload⟩)
    · refine ⟨earlier, made, later ++ [action], by simp, hmaking, hpayload, ?_⟩
      intro next hnext
      rcases List.mem_append.mp hnext with hnext | hnext
      · exact hkept next hnext
      · rw [List.mem_singleton.mp hnext]
        exact hlast
    · exact ⟨actions, action, [], rfl, hmaking, hpayload, by simp⟩

/-- The values held after a run are those that live by it. -/
theorem holds_run_iff {registries : List Registry} (hregistries : Registry.BuiltInTurn registries)
    {actions : List Action} (hproper : ∀ action ∈ actions, action.Proper registries)
    {place : Nat} {value : TaggedValue} :
    (blank.run actions).Holds place value ↔ ∃ making payload, LiveAfter actions making payload ∧
      making.place = place ∧ value = making.value payload := by
  -- from the end: the last action leaves a place alone, or it alone decides what is held there
  induction actions using List.reverseRecOn with
  | nil =>
      constructor
      · intro h
        cases h
      · rintro ⟨making, payload, ⟨earlier, made, later, hactions, -⟩, -⟩
        simp at hactions
  | append_singleton earlier action ih =>
      have hearlier : ∀ action ∈ earlier, action.Proper registries :=
        fun next hnext => hproper next (List.mem_append_left _ hnext)
      have haction := hproper action (List.mem_append_right _ List.mem_cons_self)
      have hsound := Sound.blank.run hregistries hearlier
      rw [run_concat]
      simp only [liveAfter_concat, run_concat]
      cases hkept : action.releases place with
      | false =>
          rw [hsound.holds_act hregistries haction hkept, ih hearlier]
          constructor
          · rintro ⟨making, payload, hlive, rfl, hvalue⟩
            exact ⟨making, payload, .inl ⟨hlive, hkept⟩, rfl, hvalue⟩
          · rintro ⟨making, payload, ⟨hlive, -⟩ | ⟨hmaking, -⟩, rfl, hvalue⟩
            · exact ⟨making, payload, hlive, rfl, hvalue⟩
            · cases (Action.releases_of_making hmaking).symm.trans hkept
      | true =>
          rcases Action.eq_free_of_releases hkept with rfl | ⟨making, hmaking, rfl⟩
          · constructor
            · intro h
              exact absurd rfl (holds_free.mp h).1
            · rintro ⟨making, payload, ⟨-, hfreed⟩ | ⟨hmaking, -⟩, rfl, -⟩
              · cases hkept.symm.trans hfreed
              · cases hmaking
          · have houtcome := act_of_making hmaking (blank.run earlier)
            have hempty : ((blank.run earlier).clear making.place).places making.place = .empty :=
              if_pos rfl
            rw [houtcome.holds_place (haction.making hmaking) hempty]
            constructor
            · rintro ⟨payload, hpayload, hvalue⟩
              exact ⟨making, payload, .inr ⟨hmaking, hpayload⟩, rfl, hvalue⟩
            · rintro ⟨other, payload, ⟨-, hfreed⟩ | ⟨hother, hpayload⟩, hplace, hvalue⟩
              · rw [hplace] at hfreed
                cases hkept.symm.trans hfreed
              · cases Option.some.inj (hmaking.symm.trans hother)
                exact ⟨payload, hpayload, hvalue⟩

end Workspace

end TypeAtlas
