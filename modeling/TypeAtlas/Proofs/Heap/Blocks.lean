import TypeAtlas.Proofs.Heap.Headers

/-!
# Blocks

What one request, one store and one return do: which bytes of memory they touch, and which
blocks are outstanding behind them. A value that is made or freed touches its own block only.
-/

namespace TypeAtlas

/-! ## Ranges of addresses -/

theorem Block.AwayFrom.symm {block other : Block} (h : block.AwayFrom other.base other.size) :
    other.AwayFrom block.base block.size := by
  unfold Block.AwayFrom at h ⊢
  omega

def Memory.SameOutside (block : Block) (memory other : Memory) : Prop :=
  ∀ address, ¬ block.contains address → other.byteAt address = memory.byteAt address

namespace Memory.SameOutside

variable {block : Block} {memory other : Memory}

theorem trans {last : Memory} (h : SameOutside block memory other)
    (hlast : SameOutside block other last) : SameOutside block memory last :=
  fun address hout => (hlast address hout).trans (h address hout)

theorem read_eq (h : SameOutside block memory other) {address count : Nat}
    (haway : block.AwayFrom address count) :
    other.read address count = memory.read address count := by
  apply read_congr
  intro a hle hlt
  apply h
  unfold Block.AwayFrom at haway
  unfold Block.contains
  omega

end Memory.SameOutside

theorem Memory.sameOutside_write {block : Block} (memory : Memory) {address : Nat} {bytes : Bytes}
    (hle : block.base ≤ address) (hstop : address + bytes.length ≤ block.base + block.size) :
    SameOutside block memory (memory.write address bytes) := by
  intro a hout
  apply byteAt_write_of_outside
  unfold Block.contains at hout
  omega

theorem Memory.sameOutside_fill {block : Block} (memory : Memory) {address count : Nat}
    (byte : UInt8) (hle : block.base ≤ address)
    (hstop : address + count ≤ block.base + block.size) :
    SameOutside block memory (memory.fill address count byte) := by
  intro a hout
  apply byteAt_fill_of_outside
  unfold Block.contains at hout
  omega

/-! ## Outstanding blocks -/

namespace Heap

theorem mem_outstandingAfter_returned {calls : List AllocatorCall} {allocator base : Nat}
    {block : Block} :
    block ∈ outstandingAfter (.returned allocator base :: calls) ↔
      block ∈ outstandingAfter calls ∧ ¬ (block.allocator = allocator ∧ block.base = base) := by
  simp only [outstandingAfter, List.mem_filter, Bool.not_eq_true', ← Bool.not_eq_true,
    Bool.and_eq_true, beq_iff_eq]

theorem mem_granted_of_mem_outstanding {heap : Heap} {block : Block}
    (h : block ∈ heap.outstanding) : block ∈ heap.granted := by
  obtain ⟨memory, calls⟩ := heap
  simp only [outstanding, granted] at h ⊢
  induction calls with
  | nil => exact h
  | cons call earlier ih =>
      cases call with
      | granted first =>
          rcases List.mem_cons.mp h with rfl | hlater
          · exact List.mem_cons_self
          · exact List.mem_cons_of_mem _ (ih hlater)
      | refused _ _ => exact ih h
      | returned _ _ => exact ih (mem_outstandingAfter_returned.mp h).1

theorem le_frontier {heap : Heap} {block : Block} (h : block ∈ heap.granted) :
    block.base + block.size ≤ heap.frontier := by
  have hfold : ∀ (blocks : List Block) (start : Nat),
      start ≤ blocks.foldl (fun stop block => max stop (block.base + block.size)) start ∧
      ∀ block ∈ blocks, block.base + block.size ≤
        blocks.foldl (fun stop block => max stop (block.base + block.size)) start := by
    intro blocks
    induction blocks with
    | nil => simp
    | cons first rest ih =>
        intro start
        obtain ⟨hstart, hrest⟩ := ih (max start (first.base + first.size))
        refine ⟨Nat.le_trans (Nat.le_max_left ..) hstart, ?_⟩
        intro block hblock
        rcases List.mem_cons.mp hblock with rfl | hblock
        · exact Nat.le_trans (Nat.le_max_right ..) hstart
        · exact hrest block hblock
  exact (hfold heap.granted 4096).2 block h

end Heap

namespace Allocator

variable {allocator : Allocator} {limit : Nat} (h : allocator.place = placeUpTo limit)
include h

/-- Blocks that are placed one behind the other are placed over none handed out before. -/
theorem spares_of_placeUpTo (block : Block) : allocator.Spares block := by
  intro heap size base hgranted hplace
  have hfrontier := Heap.le_frontier hgranted
  rw [h, placeUpTo] at hplace
  split at hplace
  · cases hplace
    right
    unfold nextBase
    omega
  · cases hplace

theorem sound_of_placeUpTo : allocator.Sound := by
  intro heap size base hplace block hblock
  exact spares_of_placeUpTo h block heap size base (Heap.mem_granted_of_mem_outstanding hblock)
    hplace

end Allocator

namespace TaggedValue

def payloadBlock (value : TaggedValue) : Block :=
  ⟨value.allocator.id, value.payload, value.size⟩

/-- A heap on which the value was just made. -/
def installed (value : TaggedValue) (heap : Heap) : Heap where
  memory := (heap.memory.write (value.payload - TagHeader.length)
    (TagHeader.of value.registry value.type).toBytes).fill value.payload value.size 0
  calls := .granted value.block :: heap.calls

section
variable {value : TaggedValue} (hbehind : TagHeader.length ≤ value.payload) (heap : Heap)

section
include hbehind

theorem sameOutside_installed :
    Memory.SameOutside value.block heap.memory (value.installed heap).memory := by
  have hlength := (TagHeader.of value.registry value.type).length_toBytes
  have hwrite : Memory.SameOutside value.block heap.memory (heap.memory.write value.block.base
      (TagHeader.of value.registry value.type).toBytes) := by
    apply Memory.sameOutside_write _ (Nat.le_refl _)
    simp only [hlength, block]
    omega
  apply hwrite.trans
  apply Memory.sameOutside_fill
  · exact Nat.sub_le ..
  · simp only [block]
    omega

theorem header_installed :
    (value.installed heap).memory.read (value.payload - TagHeader.length) TagHeader.length =
      (TagHeader.of value.registry value.type).toBytes := by
  have hwritten := heap.memory.read_write (value.payload - TagHeader.length)
    (TagHeader.of value.registry value.type).toBytes
  rw [TagHeader.length_toBytes] at hwritten
  rw [← hwritten]
  apply Memory.read_congr
  intro a hle hlt
  apply Memory.byteAt_fill_of_outside
  omega

end

theorem bytes_installed : value.bytes (value.installed heap) = List.replicate value.size 0 :=
  Memory.read_fill ..

end

/-- The block of a value is the only one outstanding where it begins. -/
def Alone (value : TaggedValue) (heap : Heap) : Prop :=
  ∀ block ∈ heap.outstanding, block.allocator = value.allocator.id →
    block.base = value.block.base → block = value.block

section
variable {value : TaggedValue} (heap : Heap)

theorem sameOutside_release {heap : Heap} (halone : value.Alone heap) :
    Memory.SameOutside value.block heap.memory (value.release heap).memory := by
  have hclear : Memory.SameOutside value.block heap.memory
      (heap.memory.fill value.block.base 4 0) := by
    apply Memory.sameOutside_fill
    · exact Nat.le_refl _
    · have hlength : TagHeader.length = 32 := rfl
      simp only [block]
      omega
  rw [release, Heap.release, Heap.giveBack]
  by_cases hkeeps : value.allocator.keeps
  · rw [if_pos hkeeps]
    exact hclear
  · rw [if_neg hkeeps]
    split
    · next found hfound =>
        have hkey := List.find?_some hfound
        rw [Bool.and_eq_true, beq_iff_eq, beq_iff_eq] at hkey
        have hsame : found = value.block :=
          halone found (List.mem_of_find?_eq_some hfound) hkey.1 hkey.2
        rw [hsame]
        exact hclear.trans (Memory.sameOutside_fill _ _ (Nat.le_refl _) (Nat.le_refl _))
    · exact hclear

theorem cleared_release (hkeeps : value.allocator.keeps) :
    (value.release heap).memory.read value.block.base 4 = List.replicate 4 0 := by
  rw [release, Heap.release, Heap.giveBack, if_pos hkeeps]
  exact Memory.read_fill ..

theorem sameOutside_store (bytes : Bytes) :
    Memory.SameOutside value.payloadBlock heap.memory (value.store heap bytes).memory := by
  apply Memory.sameOutside_write
  · exact Nat.le_refl _
  · have hle := List.length_take_le value.size bytes
    simp only [payloadBlock]
    omega

end

end TaggedValue

/-! ## Requests -/

namespace Registry

variable (registry : Registry) (heap : Heap) (type : HomedType) (allocator : Allocator)

/-- The registry may ask an allocator for a value of a type: the type is its own, and header and
payload together are counted by a word. -/
def MayAllocate : Prop :=
  registry.owns type = true ∧ TagHeader.length + type.record.size.toNat < UInt64.size

/-- What an allocation comes to: the allocator is not asked, or refuses, or hands out a block
in which the value is made. -/
theorem allocate_cases :
    (¬ registry.MayAllocate type ∧ registry.allocate heap type allocator = (none, heap)) ∨
    (registry.MayAllocate type ∧
      allocator.place heap (TagHeader.length + type.record.size.toNat) = none ∧
      registry.allocate heap type allocator = (none, { heap with
        calls := .refused allocator.id (TagHeader.length + type.record.size.toNat) ::
          heap.calls })) ∨
    ∃ base, registry.MayAllocate type ∧
      allocator.place heap (TagHeader.length + type.record.size.toNat) = some base ∧
      registry.allocate heap type allocator =
        (some (base + TagHeader.length),
          TaggedValue.installed ⟨registry, type.record, base + TagHeader.length, allocator⟩
            heap) := by
  by_cases hmay : registry.MayAllocate type
  · right
    have hguard : (registry.owns type && decide (TagHeader.length + type.record.size.toNat <
        UInt64.size)) = true := by
      rw [Bool.and_eq_true, decide_eq_true_iff]
      exact hmay
    rw [allocate, if_pos hguard, Heap.request]
    cases hplace : allocator.place heap (TagHeader.length + type.record.size.toNat) with
    | none => exact .inl ⟨hmay, rfl, rfl⟩
    | some base =>
        refine .inr ⟨base, hmay, rfl, ?_⟩
        simp [TaggedValue.installed, TaggedValue.block, TagHeader.of, TaggedValue.size]
  · left
    have hguard : ¬ (registry.owns type && decide (TagHeader.length + type.record.size.toNat <
        UInt64.size)) = true := by
      rw [Bool.and_eq_true, decide_eq_true_iff]
      exact hmay
    refine ⟨hmay, ?_⟩
    rw [allocate, if_neg hguard]

variable {registry heap type allocator}

theorem mayAllocate_of_allocate {payload : Nat} {after : Heap}
    (h : registry.allocate heap type allocator = (some payload, after)) :
    registry.MayAllocate type := by
  rcases registry.allocate_cases heap type allocator with
    ⟨-, hnone⟩ | ⟨-, -, hnone⟩ | ⟨-, hmay, -⟩
  · cases hnone.symm.trans h
  · cases hnone.symm.trans h
  · exact hmay

theorem MayAllocate.own (h : registry.MayAllocate type) :
    type.home = registry.tag ∧ type.slot = type.record.id ∧
      ∃ record, registry.typeById? type.record.id = some record := by
  have howns := h.1
  simp only [owns, Bool.and_eq_true, beq_iff_eq] at howns
  exact ⟨howns.1.1, howns.1.2, Option.isSome_iff_exists.mp howns.2⟩

end Registry

end TypeAtlas
