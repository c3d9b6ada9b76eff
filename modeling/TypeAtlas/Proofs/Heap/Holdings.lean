import TypeAtlas.Proofs.Heap.Blocks

/-!
# Values in places

The blocks that are outstanding are those of the values that places hold, one for one and
apart from each other, and each value lies behind its own header. Every action keeps this, as
long as allocators place blocks apart and what is made and adopted is so by known registries.
-/

namespace TypeAtlas

/-- A change away from a value leaves its header as it is. -/
theorem TaggedValue.header_eq_of_awayFrom {block : Block} (value : TaggedValue)
    (haway : block.AwayFrom value.block.base value.block.size) {memory other : Memory}
    (hsame : Memory.SameOutside block memory other) :
    other.read (value.payload - TagHeader.length) TagHeader.length =
      memory.read (value.payload - TagHeader.length) TagHeader.length := by
  apply hsame.read_eq
  simp only [Block.AwayFrom, TaggedValue.block] at haway ⊢
  omega

/-- Bytes stored away from a value leave its header as it is. -/
theorem TaggedValue.header_write {value : TaggedValue} {address : Nat} {bytes : Bytes}
    (haway : value.block.AwayFrom address bytes.length) (memory : Memory) :
    (memory.write address bytes).read (value.payload - TagHeader.length) TagHeader.length =
      memory.read (value.payload - TagHeader.length) TagHeader.length := by
  let stored : Block := ⟨value.allocator.id, address, bytes.length⟩
  have hstored : stored.AwayFrom value.block.base value.block.size := Block.AwayFrom.symm haway
  apply value.header_eq_of_awayFrom hstored
  exact Memory.sameOutside_write memory (Nat.le_refl _) (Nat.le_refl _)

theorem TaggedValue.sameOutside_block {value : TaggedValue} {memory other : Memory}
    (h : Memory.SameOutside value.payloadBlock memory other) :
    Memory.SameOutside value.block memory other := by
  intro address hout
  apply h
  intro hin
  apply hout
  simp only [Block.contains, payloadBlock, block] at hin ⊢
  omega

namespace Workspace

structure Sound (registries : List Registry) (workspace : Workspace) : Prop where
  tagged : ∀ place value, workspace.Holds place value →
    value.Tagged registries workspace.heap.memory
  apart : ∀ place other value neighbour, workspace.Holds place value →
    workspace.Holds other neighbour → place ≠ other →
    value.block.AwayFrom neighbour.block.base neighbour.block.size
  outstanding : ∀ block, block ∈ workspace.heap.outstanding ↔
    ∃ place value, workspace.Holds place value ∧ value.block = block
  distinct : workspace.heap.outstanding.Nodup
  balanced : Heap.Balanced workspace.heap.calls

/-! ## What places hold -/

section
variable {workspace : Workspace} {place other : Nat} {value : TaggedValue}

theorem holds_put {holding : Holding} :
    (workspace.put place holding).Holds other value ↔
      if other = place then holding.value? = some value else workspace.Holds other value := by
  by_cases hother : other = place
  · simp [Holds, put, hother]
  · simp [Holds, put, hother]

theorem value?_remains (value : TaggedValue) : (remains value).value? = none := by
  unfold remains
  split <;> rfl

theorem free_of_holds (h : workspace.Holds place value) :
    workspace.free place =
      { workspace with heap := value.release workspace.heap }.put place (remains value) := by
  unfold Holds at h
  rw [free, h]

theorem free_of_vacant (h : (workspace.places place).value? = none) :
    workspace.free place = workspace := by
  rw [free, h]

theorem holds_free :
    (workspace.free place).Holds other value ↔ other ≠ place ∧ workspace.Holds other value := by
  cases hplace : (workspace.places place).value? with
  | none =>
      rw [free_of_vacant hplace, iff_and_self]
      rintro hother rfl
      rw [Holds, hplace] at hother
      cases hother
  | some held =>
      rw [free_of_holds hplace, holds_put, value?_remains]
      by_cases hother : other = place
      · simp [hother]
      · simp [hother, Holds]

theorem holds_clear :
    (workspace.clear place).Holds other value ↔ other ≠ place ∧ workspace.Holds other value := by
  rw [clear, holds_put, holds_free]
  by_cases hother : other = place
  · simp [hother, Holding.value?]
  · simp [hother]

end

namespace Sound

variable {registries : List Registry} {workspace : Workspace}

theorem blank : Sound registries .blank := by
  have hvacant : ∀ place value, ¬ Workspace.blank.Holds place value := by
    intro place value h
    cases h
  constructor
  case tagged =>
    intro place value h
    exact absurd h (hvacant place value)
  case apart =>
    intro place other value neighbour h
    exact absurd h (hvacant place value)
  case outstanding =>
    intro block
    constructor
    · intro h
      cases h
    · intro h
      obtain ⟨place, value, h, -⟩ := h
      exact absurd h (hvacant place value)
  case distinct => exact List.nodup_nil
  case balanced => trivial

/-- Only headers, outstanding blocks and what places hold matter. -/
theorem congr {other : Workspace} (h : workspace.Sound registries)
    (hholds : ∀ place value, other.Holds place value ↔ workspace.Holds place value)
    (houtstanding : other.heap.outstanding = workspace.heap.outstanding)
    (hbalanced : Heap.Balanced other.heap.calls)
    (hheaders : ∀ place value, workspace.Holds place value →
      other.heap.memory.read (value.payload - TagHeader.length) TagHeader.length =
        workspace.heap.memory.read (value.payload - TagHeader.length) TagHeader.length) :
    other.Sound registries where
  tagged place value hheld := by
    have hbefore := (hholds place value).mp hheld
    have htagged := h.tagged place value hbefore
    exact { htagged with header := (hheaders place value hbefore).trans htagged.header }
  apart place second value neighbour hheld hsecond :=
    h.apart place second value neighbour ((hholds place value).mp hheld)
      ((hholds second neighbour).mp hsecond)
  outstanding block := by
    simp only [houtstanding, hholds]
    exact h.outstanding block
  distinct := by
    rw [houtstanding]
    exact h.distinct
  balanced := hbalanced

theorem of_heap_eq {other : Workspace} (h : workspace.Sound registries)
    (hheap : other.heap = workspace.heap)
    (hholds : ∀ place value, other.Holds place value ↔ workspace.Holds place value) :
    other.Sound registries := by
  apply h.congr hholds
  · rw [hheap]
  · rw [hheap]
    exact h.balanced
  · intro place value _
    rw [hheap]

theorem mem_outstanding (h : workspace.Sound registries) {place : Nat} {value : TaggedValue}
    (hheld : workspace.Holds place value) : value.block ∈ workspace.heap.outstanding :=
  (h.outstanding value.block).mpr ⟨place, value, hheld, rfl⟩

theorem block_pos (value : TaggedValue) : 0 < value.block.size := by
  have hlength : TagHeader.length = 32 := rfl
  simp only [TaggedValue.block]
  omega

/-- A block that begins where a value's does is that value's. -/
theorem eq_of_base_eq (h : workspace.Sound registries) {place other : Nat}
    {value neighbour : TaggedValue} (hheld : workspace.Holds place value)
    (hother : workspace.Holds other neighbour)
    (hbase : neighbour.block.base = value.block.base) : other = place := by
  by_contra hne
  have haway := h.apart place other value neighbour hheld hother (Ne.symm hne)
  have hpos := block_pos value
  have hnext := block_pos neighbour
  unfold Block.AwayFrom at haway
  omega

theorem alone (h : workspace.Sound registries) {place : Nat} {value : TaggedValue}
    (hheld : workspace.Holds place value) : value.Alone workspace.heap := by
  intro block hmem _ hbase
  obtain ⟨other, neighbour, hother, rfl⟩ := (h.outstanding block).mp hmem
  cases h.eq_of_base_eq hheld hother hbase
  rw [Holds] at hother hheld
  rw [hheld] at hother
  cases hother
  rfl

/-- A change within one value's block leaves the headers of the others as they are. -/
theorem header_eq_of_sameOutside (h : workspace.Sound registries) {place other : Nat}
    {value neighbour : TaggedValue} (hheld : workspace.Holds place value)
    (hother : workspace.Holds other neighbour) (hne : place ≠ other) {memory : Memory}
    (hsame : Memory.SameOutside value.block workspace.heap.memory memory) :
    memory.read (neighbour.payload - TagHeader.length) TagHeader.length =
      workspace.heap.memory.read (neighbour.payload - TagHeader.length) TagHeader.length :=
  neighbour.header_eq_of_awayFrom (h.apart place other value neighbour hheld hother hne) hsame

/-! ## Storing -/

/-- Bytes stored in the payload of a value leave every header as it is. -/
theorem store (h : workspace.Sound registries) {place : Nat} {value : TaggedValue}
    (hheld : workspace.Holds place value) {memory : Memory}
    (hsame : Memory.SameOutside value.payloadBlock workspace.heap.memory memory) :
    Sound registries { workspace with heap := { workspace.heap with memory := memory } } := by
  refine congr h ?_ rfl h.balanced ?_
  · intro _ _
    exact Iff.rfl
  intro other neighbour hother
  have hbehind := (h.tagged place value hheld).behind
  by_cases hne : place = other
  · subst hne
    rw [Holds, hheld] at hother
    cases hother
    apply hsame.read_eq
    left
    simp only [TaggedValue.payloadBlock]
    omega
  · exact h.header_eq_of_sameOutside hheld hother hne (TaggedValue.sameOutside_block hsame)

theorem scribble (h : workspace.Sound registries) (address : Nat) (bytes : Bytes) :
    (workspace.scribble address bytes).Sound registries := by
  unfold Workspace.scribble
  split
  · next hclear =>
      refine congr h ?_ rfl h.balanced ?_
      · intro _ _
        exact Iff.rfl
      intro place value hheld
      have haway : value.block.AwayFrom address bytes.length :=
        of_decide_eq_true (List.all_eq_true.mp hclear _ (h.mem_outstanding hheld))
      exact TaggedValue.header_write haway _
  · exact h

/-! ## Freeing -/

theorem calls_free {place : Nat} {value : TaggedValue} (hheld : workspace.Holds place value) :
    (workspace.free place).heap.calls =
      .returned value.allocator.id value.block.base :: workspace.heap.calls := by
  rw [free_of_holds hheld]
  rfl

/-- Blocks lie apart, so none but the freed one begins at its base. -/
theorem mem_outstanding_free (h : workspace.Sound registries) {place : Nat} {value : TaggedValue}
    (hheld : workspace.Holds place value) {block : Block} :
    block ∈ (workspace.free place).heap.outstanding ↔
      ∃ other neighbour, (workspace.free place).Holds other neighbour ∧
        neighbour.block = block := by
  rw [Heap.outstanding, calls_free hheld, Heap.mem_outstandingAfter_returned]
  constructor
  · intro hmem
    obtain ⟨other, neighbour, hother, rfl⟩ := (h.outstanding block).mp hmem.1
    refine ⟨other, neighbour, holds_free.mpr ⟨?_, hother⟩, rfl⟩
    rintro rfl
    rw [Holds, hheld] at hother
    cases hother
    exact hmem.2 ⟨rfl, rfl⟩
  · intro hmem
    obtain ⟨other, neighbour, hother, rfl⟩ := hmem
    obtain ⟨hne, hother⟩ := holds_free.mp hother
    refine ⟨h.mem_outstanding hother, ?_⟩
    intro hbase
    exact hne (h.eq_of_base_eq hheld hother hbase.2)

theorem free (h : workspace.Sound registries) (place : Nat) :
    (workspace.free place).Sound registries := by
  cases hplace : (workspace.places place).value? with
  | none =>
      rw [free_of_vacant hplace]
      exact h
  | some value =>
      have hheld : workspace.Holds place value := hplace
      have halone := h.alone hheld
      have hsame : Memory.SameOutside value.block workspace.heap.memory
          (workspace.free place).heap.memory := by
        rw [free_of_holds hheld]
        exact TaggedValue.sameOutside_release halone
      constructor
      case tagged =>
        intro other neighbour hother
        obtain ⟨hne, hother⟩ := holds_free.mp hother
        have htagged := h.tagged other neighbour hother
        exact { htagged with
          header := (h.header_eq_of_sameOutside hheld hother (Ne.symm hne) hsame).trans
            htagged.header }
      case apart =>
        intro first second one two hfirst hsecond
        exact h.apart first second one two (holds_free.mp hfirst).2 (holds_free.mp hsecond).2
      case outstanding =>
        intro block
        exact h.mem_outstanding_free hheld
      case distinct =>
        rw [Heap.outstanding, calls_free hheld]
        exact h.distinct.filter _
      case balanced =>
        rw [calls_free hheld]
        exact ⟨⟨value.block, h.mem_outstanding hheld, ⟨rfl, rfl⟩, halone⟩, h.balanced⟩

theorem clear (h : workspace.Sound registries) (place : Nat) :
    (workspace.clear place).Sound registries := by
  refine of_heap_eq (h.free place) rfl ?_
  intro other value
  rw [holds_clear, holds_free]

/-! ## Making -/

theorem refused (h : workspace.Sound registries) (allocator size : Nat) :
    Sound registries { workspace with
      heap := { workspace.heap with calls := .refused allocator size :: workspace.heap.calls } } :=
  h.congr (fun _ _ => Iff.rfl) rfl h.balanced fun _ _ _ => rfl

section
variable {place : Nat} {value : TaggedValue} {holding : Holding}

theorem holds_installed (hholding : holding.value? = some value) {other : Nat}
    {neighbour : TaggedValue} :
    ({ workspace with heap := value.installed workspace.heap }.put place holding).Holds other
        neighbour ↔
      if other = place then value = neighbour else workspace.Holds other neighbour := by
  rw [holds_put, hholding, Option.some_inj]
  rfl

/-- The header of a new value is stored away from all that is held. -/
theorem tagged_installed (h : workspace.Sound registries)
    (hbehind : TagHeader.length ≤ value.payload)
    (haway : ∀ block ∈ workspace.heap.outstanding,
      block.AwayFrom value.block.base value.block.size)
    {other : Nat} {neighbour : TaggedValue} (hother : workspace.Holds other neighbour) :
    neighbour.Tagged registries (value.installed workspace.heap).memory := by
  have htagged := h.tagged other neighbour hother
  have hclear := haway _ (h.mem_outstanding hother)
  have hsame := TaggedValue.sameOutside_installed hbehind workspace.heap
  exact { htagged with
    header := (neighbour.header_eq_of_awayFrom hclear.symm hsame).trans htagged.header }

theorem mem_outstanding_installed (h : workspace.Sound registries)
    (hvacant : ∀ held, ¬ workspace.Holds place held) {block : Block} :
    block ∈ value.block :: workspace.heap.outstanding ↔
      ∃ other neighbour,
        (if other = place then value = neighbour else workspace.Holds other neighbour) ∧
          neighbour.block = block := by
  rw [List.mem_cons, h.outstanding]
  constructor
  · intro hgiven
    rcases hgiven with rfl | ⟨other, neighbour, hother, rfl⟩
    · exact ⟨place, value, by rw [if_pos rfl], rfl⟩
    · refine ⟨other, neighbour, ?_, rfl⟩
      rw [if_neg]
      · exact hother
      · rintro rfl
        exact hvacant neighbour hother
  · intro hgiven
    rcases hgiven with ⟨other, neighbour, hother, rfl⟩
    split at hother
    · exact .inl (congrArg TaggedValue.block hother.symm)
    · exact .inr ⟨other, neighbour, hother, rfl⟩

/-- No block lies away from itself, as all have a header. -/
theorem not_mem_of_awayFrom {blocks : List Block}
    (haway : ∀ block ∈ blocks, block.AwayFrom value.block.base value.block.size) :
    value.block ∉ blocks := by
  intro hin
  have hself := haway _ hin
  have hpos := block_pos value
  unfold Block.AwayFrom at hself
  omega

/-- A value that is made behind no outstanding block is one more to hold. -/
theorem installed (h : workspace.Sound registries)
    (hvacant : ∀ held, ¬ workspace.Holds place held) (hmem : value.registry ∈ registries)
    (hown : value.registry.typeById? value.type.id = some value.type)
    (hbehind : TagHeader.length ≤ value.payload)
    (haway : ∀ block ∈ workspace.heap.outstanding,
      block.AwayFrom value.block.base value.block.size)
    (hholding : holding.value? = some value) :
    Sound registries
      ({ workspace with heap := value.installed workspace.heap }.put place holding) := by
  have hclear : ∀ other neighbour, workspace.Holds other neighbour →
      neighbour.block.AwayFrom value.block.base value.block.size :=
    fun other neighbour hother => haway _ (h.mem_outstanding hother)
  constructor
  case tagged =>
    intro other neighbour hother
    rw [holds_installed hholding] at hother
    split at hother
    · subst hother
      exact ⟨hmem, hown, hbehind, TaggedValue.header_installed hbehind _⟩
    · exact h.tagged_installed hbehind haway hother
  case apart =>
    intro first second one two hone htwo hne
    rw [holds_installed hholding] at hone htwo
    split at hone
    · next hfirst =>
        rw [if_neg (fun hsecond => hne (hfirst.trans hsecond.symm))] at htwo
        subst hone
        exact (hclear second two htwo).symm
    · split at htwo
      · subst htwo
        exact hclear first one hone
      · exact h.apart first second one two hone htwo hne
  case outstanding =>
    intro block
    simp only [holds_installed hholding]
    exact h.mem_outstanding_installed hvacant
  case distinct => exact List.nodup_cons.mpr ⟨not_mem_of_awayFrom haway, h.distinct⟩
  case balanced => exact h.balanced

end

end Sound

end Workspace

end TypeAtlas
