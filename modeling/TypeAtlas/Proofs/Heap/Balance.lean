import TypeAtlas.Proofs.Heap.Tagging

/-!
# Balance of allocators

Over every run, what is returned to an allocator is a block of that allocator that is
outstanding, and the outstanding blocks are those of the values that live. An allocation that
fails leaves nothing behind, and moving the ownership of a value moves no memory.
-/

namespace TypeAtlas

/-- The calls of a run's allocators are balanced, and the blocks that no call has returned are
those of the values that live, one for each. -/
structure Workspace.Balance (actions : List Action) : Prop where
  balanced : Heap.Balanced (blank.run actions).heap.calls
  distinct : (blank.run actions).heap.outstanding.Nodup
  outstanding : ∀ block, block ∈ (blank.run actions).heap.outstanding ↔
    ∃ making payload, LiveAfter actions making payload ∧
      block.allocator = making.allocator.id ∧ payload = block.base + TagHeader.length ∧
      block.size = TagHeader.length + making.type.record.size.toNat
  unshared : ∀ payload making other, LiveAfter actions making payload →
    LiveAfter actions other payload → making = other

/-- What an allocation comes to. The allocator is not asked for a record that is not the
registry's own or leaves no room for a header, and its answer is passed on otherwise. Nothing
is left outstanding when the answer is none, and a value that is allocated is also owned if it
is to be. -/
structure Registry.AllocatesFully (registry : Registry) (heap : Heap) (type : HomedType)
    (allocator : Allocator) : Prop where
  unasked : registry.owns type = false ∨
      UInt64.size ≤ TagHeader.length + type.record.size.toNat →
    registry.allocate heap type allocator = (none, heap) ∧
      TaggedValue.makeOwned registry heap type allocator = (none, heap)
  asked : registry.owns type = true →
      TagHeader.length + type.record.size.toNat < UInt64.size →
    (registry.allocate heap type allocator).1 =
      (allocator.place heap (TagHeader.length + type.record.size.toNat)).map
        fun base => base + TagHeader.length
  refused : ∀ after, registry.allocate heap type allocator = (none, after) →
    after.outstanding = heap.outstanding ∧ after.memory = heap.memory
  notOwned : ∀ after, TaggedValue.makeOwned registry heap type allocator = (none, after) →
    after.outstanding = heap.outstanding ∧ after.memory = heap.memory
  owned : ∀ payload after, registry.allocate heap type allocator = (some payload, after) →
    ∃ record, registry.typeById? type.record.id = some record ∧
      TaggedValue.makeOwned registry heap type allocator =
        (some ⟨registry, record, payload, allocator⟩, after)

/-- Giving up and taking over ownership asks no allocator and changes no byte. -/
def Workspace.MovesFreely (workspace : Workspace) : Prop :=
  ∀ place registry, (workspace.giveUp place).2.heap = workspace.heap ∧
    (workspace.adopt place registry).2.heap = workspace.heap

namespace Registry

theorem makeOwned_of_allocate {registry : Registry} {heap after : Heap} {type : HomedType}
    {allocator : Allocator} {payload : Nat}
    (h : registry.allocate heap type allocator = (some payload, after)) :
    ∃ record, registry.typeById? type.record.id = some record ∧
      TaggedValue.makeOwned registry heap type allocator =
        (some ⟨registry, record, payload, allocator⟩, after) := by
  obtain ⟨-, -, record, hrecord⟩ := (mayAllocate_of_allocate h).own
  refine ⟨record, hrecord, ?_⟩
  rw [TaggedValue.makeOwned, h]
  simp only [hrecord, Option.map_some]

theorem makeOwned_of_allocate_none {registry : Registry} {heap after : Heap} {type : HomedType}
    {allocator : Allocator} (h : registry.allocate heap type allocator = (none, after)) :
    TaggedValue.makeOwned registry heap type allocator = (none, after) := by
  rw [TaggedValue.makeOwned, h]

theorem not_mayAllocate_iff {registry : Registry} {type : HomedType} :
    ¬ registry.MayAllocate type ↔ registry.owns type = false ∨
      UInt64.size ≤ TagHeader.length + type.record.size.toNat := by
  rw [MayAllocate, Classical.not_and_iff_not_or_not, Bool.not_eq_true, Nat.not_lt]

theorem allocatesFully (registry : Registry) (heap : Heap) (type : HomedType)
    (allocator : Allocator) : registry.AllocatesFully heap type allocator := by
  have hrefused : ∀ after, registry.allocate heap type allocator = (none, after) →
      after.outstanding = heap.outstanding ∧ after.memory = heap.memory := by
    intro after hnone
    rcases registry.allocate_cases heap type allocator with
      ⟨-, hunasked⟩ | ⟨-, -, hrefused⟩ | ⟨base, -, -, hgranted⟩
    · cases hunasked.symm.trans hnone
      exact ⟨rfl, rfl⟩
    · cases hrefused.symm.trans hnone
      exact ⟨rfl, rfl⟩
    · cases hgranted.symm.trans hnone
  constructor
  case refused => exact hrefused
  case owned => exact fun payload after => makeOwned_of_allocate
  case asked =>
    intro howns hroom
    rcases registry.allocate_cases heap type allocator with
      ⟨hnot, -⟩ | ⟨-, hplace, hrefused⟩ | ⟨base, -, hplace, hgranted⟩
    · exact absurd ⟨howns, hroom⟩ hnot
    · rw [hrefused, hplace]
      rfl
    · rw [hgranted, hplace]
      rfl
  case unasked =>
    intro hmay
    rcases registry.allocate_cases heap type allocator with
      ⟨-, hunasked⟩ | ⟨hgranted, -⟩ | ⟨base, hgranted, -⟩
    · exact ⟨hunasked, makeOwned_of_allocate_none hunasked⟩
    · exact absurd hgranted (not_mayAllocate_iff.mpr hmay)
    · exact absurd hgranted (not_mayAllocate_iff.mpr hmay)
  case notOwned =>
    intro after hnone
    cases hallocate : registry.allocate heap type allocator with
    | mk answer changed =>
        cases answer with
        | none =>
            cases (makeOwned_of_allocate_none hallocate).symm.trans hnone
            exact hrefused _ hallocate
        | some payload =>
            obtain ⟨record, -, howned⟩ := makeOwned_of_allocate hallocate
            cases howned.symm.trans hnone

end Registry

namespace Workspace

/-- A place holds at most one value that lives. -/
theorem LiveAfter.unique {actions : List Action} {making other : Making} {payload second : Nat}
    (h : LiveAfter actions making payload) (hother : LiveAfter actions other second)
    (hplace : making.place = other.place) : making = other := by
  induction actions using List.reverseRecOn with
  | nil =>
      obtain ⟨earlier, action, later, hactions, -⟩ := h
      simp at hactions
  | append_singleton earlier action ih =>
      rcases liveAfter_concat.mp h with ⟨hbefore, hkept⟩ | ⟨hmaking, -⟩
      · rcases liveAfter_concat.mp hother with ⟨hbeforeToo, -⟩ | ⟨hmaking, -⟩
        · exact ih hbefore hbeforeToo
        · rw [hplace, Action.releases_of_making hmaking] at hkept
          cases hkept
      · rcases liveAfter_concat.mp hother with ⟨-, hkept⟩ | ⟨hmakingToo, -⟩
        · rw [← hplace, Action.releases_of_making hmaking] at hkept
          cases hkept
        · exact Option.some.inj (hmaking.symm.trans hmakingToo)

section
variable {registries : List Registry} (hregistries : Registry.BuiltInTurn registries)
  {actions : List Action} (hproper : ∀ action ∈ actions, action.Proper registries)
include hregistries hproper

theorem balance_of_proper : Balance actions := by
  have hsound := Sound.blank.run hregistries hproper
  have hheld : ∀ making payload, LiveAfter actions making payload →
      (blank.run actions).Holds making.place (making.value payload) :=
    fun making payload hlive =>
      (holds_run_iff hregistries hproper).mpr ⟨making, payload, hlive, rfl, rfl⟩
  refine ⟨hsound.balanced, hsound.distinct, ?_, ?_⟩
  · intro block
    constructor
    · intro hblock
      obtain ⟨place, value, hvalue, rfl⟩ := (hsound.outstanding block).mp hblock
      have hbehind := (hsound.tagged place value hvalue).behind
      obtain ⟨making, payload, hlive, -, rfl⟩ := (holds_run_iff hregistries hproper).mp hvalue
      exact ⟨making, payload, hlive, rfl, (Nat.sub_add_cancel hbehind).symm, rfl⟩
    · rintro ⟨making, payload, hlive, hallocator, rfl, hsize⟩
      have hblock : (making.value (block.base + TagHeader.length)).block = block := by
        obtain ⟨allocator, base, size⟩ := block
        cases hallocator
        cases hsize
        simp [TaggedValue.block, Making.value, TaggedValue.size]
      rw [← hblock]
      exact hsound.mem_outstanding (hheld _ _ hlive)
  · intro payload making other hlive hother
    apply hlive.unique hother
    exact hsound.eq_of_base_eq (hheld _ _ hother) (hheld _ _ hlive) rfl

/-- In every run allocators are balanced. Failed allocations leave nothing outstanding, and what
is allocated is owned if it is to be; ownership moves without a call and without a store, and
just the registry that made a value takes it over. -/
theorem balance_run :
    Balance actions ∧
    (∀ registry heap type allocator, Registry.AllocatesFully registry heap type allocator) ∧
    (∀ workspace : Workspace, workspace.MovesFreely) ∧
    ∀ place value registry, (blank.run actions).places place = .raw value →
      registry ∈ registries →
      ((blank.run actions).adopt place registry).1 = decide (registry = value.registry) := by
  refine ⟨balance_of_proper hregistries hproper, Registry.allocatesFully, ?_, ?_⟩
  · intro workspace place registry
    exact ⟨heap_giveUp workspace place, heap_adopt workspace place registry⟩
  · intro place value registry hplace hmem
    have hsound := Sound.blank.run hregistries hproper
    have hheld : (blank.run actions).Holds place value := by
      rw [Holds, hplace]
      rfl
    rw [adopt, hplace]
    simp only [hsound.at?_of_holds hregistries hheld hmem]
    by_cases hsame : registry = value.registry
    · simp [hsame]
    · simp [hsame]

end

theorem balance_run_twins :
    Balance twinRun ∧ LiveAfter twinRun (ofTwin 0 1 .system) 4128 ∧
    (blank.run twinRun).heap.outstanding = [⟨0, 4096, 40⟩] ∧
    (blank.run (twinRun.take 4)).places 1 = .raw ((ofTwin 1 2 .arena).value 4176) ∧
    ((blank.run (twinRun.take 4)).adopt 1 (twin 1)).1 = false ∧
    ((blank.run (twinRun.take 4)).adopt 1 (twin 2)).1 = true := by
  obtain ⟨hbalance, -⟩ := balance_run builtInTurn_twins proper_twinRun
  have hbefore : ∀ action ∈ twinRun.take 4, action.Proper [twin 1, twin 2] :=
    fun action haction => proper_twinRun action (List.mem_of_mem_take haction)
  obtain ⟨-, -, -, hadopts⟩ := balance_run builtInTurn_twins hbefore
  have hraw : (blank.run (twinRun.take 4)).places 1 = .raw ((ofTwin 1 2 .arena).value 4176) := rfl
  have hlive : LiveAfter twinRun (ofTwin 0 1 .system) 4128 :=
    ⟨[], _, _, rfl, rfl, by decide +kernel, by decide⟩
  refine ⟨hbalance, hlive, by decide +kernel, hraw, ?_, ?_⟩
  · rw [hadopts _ _ _ hraw List.mem_cons_self]
    decide +kernel
  · rw [hadopts _ _ _ hraw (List.mem_cons_of_mem _ List.mem_cons_self)]
    decide +kernel

end Workspace

end TypeAtlas
