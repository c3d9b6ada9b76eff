import TypeAtlas.Heap.Run

/-!
# What a run is held to

What allocators promise about the blocks they hand out, and what a program has to keep to when
it makes, adopts and frees values: types are records of registries, and registries are known.
From the actions of a run alone it is read off which values live.
-/

namespace TypeAtlas

namespace Allocator

/-- Blocks are placed outside of every block that is outstanding, of whichever allocator. -/
def Sound (allocator : Allocator) : Prop :=
  ∀ heap size base, allocator.place heap size = some base →
    ∀ block ∈ heap.outstanding, block.AwayFrom base size

/-- Blocks are never placed over one block, once that was handed out. -/
def Spares (allocator : Allocator) (block : Block) : Prop :=
  ∀ heap size base, block ∈ heap.granted → allocator.place heap size = some base →
    block.AwayFrom base size

end Allocator

/-- The record stands in the slot it claims to stand in, if its home is one of the registries. -/
def HomedType.Genuine (registries : List Registry) (type : HomedType) : Prop :=
  ∀ registry ∈ registries, type.home = registry.tag →
    registry.typeById? type.slot = some type.record

/-- The block that a value lies in, header and payload. -/
def TaggedValue.block (value : TaggedValue) : Block :=
  ⟨value.allocator.id, value.payload - TagHeader.length, TagHeader.length + value.size⟩

structure Making where
  place : Nat
  registry : Registry
  type : HomedType
  allocator : Allocator

def Making.value (making : Making) (payload : Nat) : TaggedValue :=
  ⟨making.registry, making.type.record, payload, making.allocator⟩

structure Making.Proper (registries : List Registry) (making : Making) : Prop where
  registry : making.registry ∈ registries
  type : making.type.Genuine registries
  allocator : making.allocator.Sound

namespace Action

def making? : Action → Option Making
  | make place registry type allocator | makeOwned place registry type allocator =>
    some ⟨place, registry, type, allocator⟩
  | _ => none

def releases (place : Nat) : Action → Bool
  | make other _ _ _ | makeOwned other _ _ _ | free other => other == place
  | _ => false

/-- What is made and adopted is so by known registries. -/
def Proper (registries : List Registry) : Action → Prop
  | make place registry type allocator | makeOwned place registry type allocator =>
    Making.Proper registries ⟨place, registry, type, allocator⟩
  | adopt _ registry => registry ∈ registries
  | _ => True

/-- Nothing is placed or stored over a block by the action, once that was handed out. -/
def Spares (block : Block) : Action → Prop
  | make _ _ _ allocator | makeOwned _ _ _ allocator => allocator.Spares block
  | elsewhere address bytes => block.AwayFrom address bytes.length
  | _ => True

end Action

namespace Workspace

def Holds (workspace : Workspace) (place : Nat) (value : TaggedValue) : Prop :=
  (workspace.places place).value? = some value

/-- Some action of a run was granted a payload for what it makes, and no later one freed it. -/
def LiveAfter (actions : List Action) (making : Making) (payload : Nat) : Prop :=
  ∃ earlier action later, actions = earlier ++ action :: later ∧
    action.making? = some making ∧
    ((blank.run (earlier ++ [action])).places making.place).payload? = some payload ∧
    ∀ next ∈ later, next.releases making.place = false

end Workspace

namespace Heap

/-- Whatever is returned is the base of just one block that the same allocator handed out and
that was not returned before. -/
def Balanced : List AllocatorCall → Prop
  | [] => True
  | .granted _ :: earlier | .refused _ _ :: earlier => Balanced earlier
  | .returned allocator base :: earlier =>
    (∃ block ∈ outstandingAfter earlier, (block.allocator = allocator ∧ block.base = base) ∧
      ∀ other ∈ outstandingAfter earlier,
        other.allocator = allocator → other.base = base → other = block) ∧
    Balanced earlier

end Heap

end TypeAtlas
