import TypeAtlas.Proofs.Heap.Steps
import TypeAtlas.Proofs.Registry.Safety

/-!
# Type tags over runs

Over every run, a payload that lives is known to the registry that made it, as what it was made
as, and to no other registry. It is zeroed when it is made; and once it is freed on an allocator
that keeps its memory no registry knows it, until something else is placed or stored over it.
-/

namespace TypeAtlas

/-- A payload is known to one of some registries as a value of a record, with a header of a
plain value of its size, and is not known to the others. -/
structure Memory.KnownTo (registries : List Registry) (registry : Registry) (record : TypeRecord)
    (memory : Memory) (payload : Nat) : Prop where
  type : registry.typeOf? memory payload = some record
  header : ∃ header, registry.header? memory payload = some header ∧
    header.size = record.size ∧ header.isPointer = false
  others : ∀ other ∈ registries, other ≠ registry →
    other.typeOf? memory payload = none ∧ other.header? memory payload = none

def Memory.Unknown (memory : Memory) (payload : Nat) : Prop :=
  ∀ registry : Registry,
    registry.typeOf? memory payload = none ∧ registry.header? memory payload = none

theorem Action.Spares.making {action : Action} {block : Block} (h : action.Spares block)
    {making : Making} (hmaking : action.making? = some making) :
    making.allocator.Spares block := by
  cases action with
  | make _ _ _ _ | makeOwned _ _ _ _ => cases hmaking; exact h
  | _ => cases hmaking

theorem TaggedValue.Tagged.knownTo {registries : List Registry} {memory : Memory}
    {value : TaggedValue} (h : value.Tagged registries memory)
    (hregistries : Registry.BuiltInTurn registries) :
    memory.KnownTo registries value.registry value.type value.payload where
  type := Registry.typeOf?_of_tagged h hregistries
  header := by
    refine ⟨.of value.registry value.type, ?_, rfl, rfl⟩
    rw [Registry.header?_of_tagged h, if_pos rfl]
  others other hmem hne := by
    have hnone := Registry.header?_of_tagged_elsewhere h hregistries hmem hne
    exact ⟨Registry.typeOf?_of_header?_none hnone, hnone⟩

/-! ## Freed values -/

/-- A value was freed: nothing outstanding lies over its block, and the mark of its header is
cleared. -/
structure TaggedValue.Retired (value : TaggedValue) (heap : Heap) : Prop where
  granted : value.block ∈ heap.granted
  vacated : ∀ block ∈ heap.outstanding, block.AwayFrom value.block.base value.block.size
  cleared : heap.memory.read value.block.base 4 = List.replicate 4 0

namespace TaggedValue.Retired

variable {value : TaggedValue} {heap : Heap}

theorem unknown (h : value.Retired heap) : heap.memory.Unknown value.payload := by
  intro registry
  have hnone := registry.header?_of_cleared h.cleared
  exact ⟨Registry.typeOf?_of_header?_none hnone, hnone⟩

/-- Only what lies over the block matters. -/
theorem congr {after : Heap} (h : value.Retired heap) (hgranted : value.block ∈ after.granted)
    (hvacated : ∀ block ∈ after.outstanding,
      block ∈ heap.outstanding ∨ block.AwayFrom value.block.base value.block.size)
    (hheader : after.memory.read (value.payload - TagHeader.length) TagHeader.length =
      heap.memory.read (value.payload - TagHeader.length) TagHeader.length) :
    value.Retired after where
  granted := hgranted
  vacated block hblock := (hvacated block hblock).elim (h.vacated block) id
  cleared := by
    have hmark : 4 ≤ TagHeader.length := by decide
    have hbefore := h.cleared
    simp only [block] at hbefore ⊢
    rw [← Memory.take_read _ _ hmark] at hbefore ⊢
    rw [hheader]
    exact hbefore

variable {registries : List Registry} {workspace : Workspace}

theorem free (h : value.Retired workspace.heap) (hsound : workspace.Sound registries)
    (place : Nat) : value.Retired (workspace.free place).heap := by
  cases hplace : (workspace.places place).value? with
  | none =>
      rw [Workspace.free_of_vacant hplace]
      exact h
  | some freed =>
      have hheld : workspace.Holds place freed := hplace
      rw [Workspace.free_of_holds hheld]
      have hgranted : value.block ∈ (freed.release workspace.heap).granted := h.granted
      apply h.congr hgranted
      · intro block hblock
        exact .inl (Heap.mem_outstandingAfter_returned.mp hblock).1
      · exact value.header_eq_of_awayFrom (h.vacated _ (hsound.mem_outstanding hheld))
          (sameOutside_release (hsound.alone hheld))

theorem outcome {making : Making} {cleared after : Workspace} (h : value.Retired cleared.heap)
    (hspares : making.allocator.Spares value.block) (hafter : making.Outcome cleared after) :
    value.Retired after.heap := by
  cases hafter with
  | unasked => exact h
  | refused _ => exact h.congr h.granted (fun _ => .inl) rfl
  | @granted payload _ _ _ _ hbehind hplaced _ =>
      have haway : (making.value payload).block.AwayFrom value.block.base value.block.size :=
        Block.AwayFrom.symm (hspares _ _ _ h.granted hplaced)
      have hgranted : value.block ∈ ((making.value payload).installed cleared.heap).granted :=
        List.mem_cons_of_mem _ h.granted
      apply h.congr hgranted
      · intro block hblock
        rcases List.mem_cons.mp hblock with rfl | hblock
        · exact .inr haway
        · exact .inl hblock
      · exact value.header_eq_of_awayFrom haway (sameOutside_installed hbehind _)

theorem stores {after : Workspace} (h : value.Retired workspace.heap)
    (hsound : workspace.Sound registries) (hafter : workspace.Stores after) :
    value.Retired after.heap := by
  rcases hafter with rfl | ⟨place, held, memory, hheld, hsame, rfl⟩
  · exact h
  · exact h.congr h.granted (fun _ => .inl)
      (value.header_eq_of_awayFrom (h.vacated _ (hsound.mem_outstanding hheld))
        (sameOutside_block hsame))

theorem scribble (h : value.Retired workspace.heap) {address : Nat} {bytes : Bytes}
    (haway : value.block.AwayFrom address bytes.length) :
    value.Retired (workspace.scribble address bytes).heap := by
  rw [Workspace.scribble]
  split
  · exact h.congr h.granted (fun _ => .inl) (header_write haway _)
  · exact h

/-- A freed value stays so under whatever spares its block. -/
theorem act (h : value.Retired workspace.heap) (hsound : workspace.Sound registries)
    {action : Action} (hspares : action.Spares value.block) :
    value.Retired (workspace.act action).heap := by
  cases hmaking : action.making? with
  | some making =>
      have hcleared : value.Retired (workspace.clear making.place).heap :=
        h.free hsound making.place
      exact hcleared.outcome (hspares.making hmaking) (Workspace.act_of_making hmaking workspace)
  | none =>
      cases action with
      | make _ _ _ _ | makeOwned _ _ _ _ => cases hmaking
      | free place => exact h.free hsound place
      | giveUp place =>
          rw [Workspace.act, Workspace.heap_giveUp]
          exact h
      | adopt place registry =>
          rw [Workspace.act, Workspace.heap_adopt]
          exact h
      | poke place offset bytes => exact h.stores hsound (Workspace.stores_poke ..)
      | edit place name edits => exact h.stores hsound (Workspace.stores_edit ..)
      | elsewhere address bytes => exact h.scribble hspares

theorem run (h : value.Retired workspace.heap) (hsound : workspace.Sound registries)
    (hregistries : Registry.BuiltInTurn registries) {actions : List Action}
    (hproper : ∀ action ∈ actions, action.Proper registries)
    (hspares : ∀ action ∈ actions, action.Spares value.block) :
    value.Retired (workspace.run actions).heap := by
  induction actions generalizing workspace with
  | nil => exact h
  | cons action rest ih =>
      have hafter := h.act hsound (hspares action List.mem_cons_self)
      have hstep := hsound.act hregistries (hproper action List.mem_cons_self)
      exact ih hafter hstep (fun next hnext => hproper next (List.mem_cons_of_mem _ hnext))
        (fun next hnext => hspares next (List.mem_cons_of_mem _ hnext))

end TaggedValue.Retired

namespace Workspace

variable {registries : List Registry} {workspace : Workspace}

/-- What is freed on an allocator that keeps its memory is retired. -/
theorem Sound.retired_free (h : workspace.Sound registries) {place : Nat} {value : TaggedValue}
    (hheld : workspace.Holds place value) (hkeeps : value.allocator.keeps) :
    value.Retired (workspace.free place).heap := by
  have hgranted : value.block ∈ workspace.heap.granted :=
    Heap.mem_granted_of_mem_outstanding (h.mem_outstanding hheld)
  rw [free_of_holds hheld]
  refine ⟨hgranted, ?_, TaggedValue.cleared_release _ hkeeps⟩
  intro block hblock
  obtain ⟨hbefore, hother⟩ := Heap.mem_outstandingAfter_returned.mp hblock
  obtain ⟨other, neighbour, hneighbour, rfl⟩ := (h.outstanding block).mp hbefore
  apply h.apart other place neighbour value hneighbour hheld
  rintro rfl
  cases Option.some.inj (Eq.trans (Eq.symm hheld) hneighbour)
  exact hother ⟨rfl, rfl⟩

theorem Sound.retired_act (h : workspace.Sound registries) {place : Nat} {value : TaggedValue}
    (hheld : workspace.Holds place value) (hkeeps : value.allocator.keeps) {action : Action}
    (hreleases : action.releases place = true) (hspares : action.Spares value.block) :
    value.Retired (workspace.act action).heap := by
  have hfreed := h.retired_free hheld hkeeps
  rcases Action.eq_free_of_releases hreleases with rfl | ⟨making, hmaking, rfl⟩
  · exact hfreed
  · have hcleared : value.Retired (workspace.clear making.place).heap := hfreed
    exact hcleared.outcome (hspares.making hmaking) (act_of_making hmaking workspace)

/-! ## Made values -/

/-- A payload is zeroed when it is made, whatever was in the memory that was handed out. -/
theorem zeroed_of_making {action : Action} {making : Making}
    (hmaking : action.making? = some making) (workspace : Workspace) {payload : Nat}
    (hpayload : ((workspace.act action).places making.place).payload? = some payload) :
    (workspace.act action).heap.memory.read payload making.type.record.size.toNat =
      List.replicate making.type.record.size.toNat 0 := by
  have hempty : (workspace.clear making.place).places making.place = .empty := if_pos rfl
  have hafter := act_of_making hmaking workspace
  generalize workspace.act action = after at hafter hpayload ⊢
  cases hafter with
  | unasked =>
      rw [hempty] at hpayload
      cases hpayload
  | refused _ =>
      simp only [hempty] at hpayload
      cases hpayload
  | @granted granted _ _ _ _ _ _ hheld =>
      simp only [put, if_pos, Holding.payload?_of_value? hheld, Option.some_inj] at hpayload
      subst hpayload
      exact (making.value granted).bytes_installed (workspace.clear making.place).heap

/-! ## Runs -/

theorem run_append (workspace : Workspace) (earlier : List Action) (action : Action)
    (later : List Action) :
    workspace.run (earlier ++ action :: later) = ((workspace.run earlier).act action).run later :=
  List.foldl_append ..

/-- In every run payloads that live are known to the registry that made them and to no other,
payloads freed on an allocator that keeps its memory are known to none, and payloads just made
are zeroed. -/
theorem known_run (hregistries : Registry.BuiltInTurn registries) {actions : List Action}
    (hproper : ∀ action ∈ actions, action.Proper registries) :
    (∀ making payload, LiveAfter actions making payload →
      (blank.run actions).heap.memory.KnownTo registries making.registry making.type.record
        payload) ∧
    (∀ earlier action later making payload, actions = earlier ++ action :: later →
      LiveAfter earlier making payload → action.releases making.place = true →
      making.allocator.keeps = true →
      (∀ next ∈ action :: later, next.Spares (making.value payload).block) →
      (blank.run actions).heap.memory.Unknown payload) ∧
    (∀ (action : Action) (making : Making) (workspace : Workspace) (payload : Nat),
      action.making? = some making →
      ((workspace.act action).places making.place).payload? = some payload →
      (workspace.act action).heap.memory.read payload making.type.record.size.toNat =
        List.replicate making.type.record.size.toNat 0) := by
  refine ⟨?_, ?_, ?_⟩
  · intro making payload hlive
    have hheld : (blank.run actions).Holds making.place (making.value payload) :=
      (holds_run_iff hregistries hproper).mpr ⟨making, payload, hlive, rfl, rfl⟩
    have hsound := Sound.blank.run hregistries hproper
    exact (hsound.tagged _ _ hheld).knownTo hregistries
  · rintro earlier action later making payload rfl hlive hreleases hkeeps hspares
    have hearlier : ∀ next ∈ earlier, next.Proper registries :=
      fun next hnext => hproper next (List.mem_append_left _ hnext)
    have hrest : ∀ next ∈ action :: later, next.Proper registries :=
      fun next hnext => hproper next (List.mem_append_right _ hnext)
    have hheld : (blank.run earlier).Holds making.place (making.value payload) :=
      (holds_run_iff hregistries hearlier).mpr ⟨making, payload, hlive, rfl, rfl⟩
    have hsound := Sound.blank.run hregistries hearlier
    have hfreed := hsound.retired_act hheld hkeeps hreleases (hspares action List.mem_cons_self)
    have hstep := hsound.act hregistries (hrest action List.mem_cons_self)
    have hretired := hfreed.run hstep hregistries
      (fun next hnext => hrest next (List.mem_cons_of_mem _ hnext))
      (fun next hnext => hspares next (List.mem_cons_of_mem _ hnext))
    rw [run_append]
    exact hretired.unknown
  · intro action making workspace payload hmaking hpayload
    exact zeroed_of_making hmaking workspace hpayload

/-! ## A run of two registries -/

/-- The struct of eight bytes in `Registry.selfReferring`. -/
def selfReference : TypeRecord :=
  (TypeRecord.withMembers ⟨1⟩ ⟨"t", true⟩ 8 .struct 1).pushFields
    [⟨⟨"t", true⟩, ⟨1⟩, 0, 0, 1, false⟩]

def twin (tag : UInt64) : Registry := .ofRecords 1 [selfReference] tag

def ofTwin (place : Nat) (tag : UInt64) (allocator : Allocator) : Making :=
  ⟨place, twin tag, ⟨tag, ⟨1⟩, selfReference⟩, allocator⟩

theorem builtInTurn_twins : Registry.BuiltInTurn [twin 1, twin 2] where
  few := by decide
  built position registry hposition := by
    have hfirst : Registry.load Registry.selfReferring ⟨true, .raw⟩ 1 = .ok (twin 1) := by
      decide +kernel
    have hsecond : Registry.load Registry.selfReferring ⟨true, .raw⟩ 2 = .ok (twin 2) := by
      decide +kernel
    match position with
    | 0 =>
        cases hposition
        exact .load hfirst
    | 1 =>
        cases hposition
        exact .load hsecond
    | _ + 2 => cases hposition

theorem proper_ofTwin {tag : UInt64} (htag : tag = 1 ∨ tag = 2) {allocator : Allocator}
    {limit : Nat} (hplace : allocator.place = Allocator.placeUpTo limit) (place : Nat) :
    (ofTwin place tag allocator).Proper [twin 1, twin 2] where
  registry := by
    rcases htag with rfl | rfl
    · exact List.mem_cons_self
    · exact List.mem_cons_of_mem _ List.mem_cons_self
  type registry hmem _ := by
    rcases List.mem_pair.mp hmem with rfl | rfl <;> rfl
  allocator := Allocator.sound_of_placeUpTo hplace

/-- A value on the general heap, and one of the other registry in the arena. Bytes like the mark
of a header are stored in the first. The ownership of the second is given up, refused to the
first registry and taken over by its own, and it is freed. -/
def twinRun : List Action :=
  [.make 0 (twin 1) ⟨1, ⟨1⟩, selfReference⟩ .system,
    .makeOwned 1 (twin 2) ⟨2, ⟨1⟩, selfReference⟩ .arena,
    .poke 0 0 (List.replicate 8 0x75), .giveUp 1, .adopt 1 (twin 1), .adopt 1 (twin 2), .free 1]

theorem proper_twinRun : ∀ action ∈ twinRun, action.Proper [twin 1, twin 2] := by
  intro action haction
  simp only [twinRun, List.mem_cons, List.not_mem_nil, or_false] at haction
  rcases haction with rfl | rfl | rfl | rfl | rfl | rfl | rfl
  · exact proper_ofTwin (.inl rfl) rfl 0
  · exact proper_ofTwin (.inr rfl) rfl 1
  · trivial
  · trivial
  · exact List.mem_cons_self
  · exact List.mem_cons_of_mem _ List.mem_cons_self
  · trivial

theorem known_run_twins :
    LiveAfter twinRun (ofTwin 0 1 .system) 4128 ∧
    (blank.run twinRun).heap.memory.KnownTo [twin 1, twin 2] (twin 1) selfReference 4128 ∧
    LiveAfter (twinRun.take 6) (ofTwin 1 2 .arena) 4176 ∧
    (blank.run twinRun).heap.memory.Unknown 4176 ∧
    (blank.run (twinRun.take 1)).heap.memory.read 4128 8 = List.replicate 8 0 := by
  obtain ⟨hknown, hunknown, hzeroed⟩ := known_run builtInTurn_twins proper_twinRun
  have hlive : LiveAfter twinRun (ofTwin 0 1 .system) 4128 := by
    refine ⟨[], _, _, rfl, rfl, by decide +kernel, by decide⟩
  have hbefore : LiveAfter (twinRun.take 6) (ofTwin 1 2 .arena) 4176 :=
    ⟨twinRun.take 1, _, _, rfl, rfl, by decide +kernel, by decide⟩
  refine ⟨hlive, hknown _ _ hlive, hbefore, ?_, ?_⟩
  · apply hunknown (twinRun.take 6) (.free 1) [] _ _ rfl hbefore rfl rfl
    intro next hnext
    cases List.mem_singleton.mp hnext
    trivial
  · exact hzeroed (.make 0 (twin 1) ⟨1, ⟨1⟩, selfReference⟩ .system) (ofTwin 0 1 .system) blank 4128
      rfl (by decide +kernel)

end Workspace

end TypeAtlas
