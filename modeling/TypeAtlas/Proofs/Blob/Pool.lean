import TypeAtlas.Blob.Content
import TypeAtlas.Proofs.Keyed

/-!
# What a string pool holds

The bytes of a pool are the distinct texts interned so far, in the order of their first use,
and the offset given for a text is the length of what stands in front of it. Interning more
never moves a text, so an offset that was written into a table stays right.
-/

namespace TypeAtlas

namespace Schema

/-- Where a name stands in the pool of some distinct names. -/
def placeIn (names : List String) (name : String) : Nat :=
  (pooled (names.takeWhile (· ≠ name))).length

@[simp] theorem pooled_append (names more : List String) :
    pooled (names ++ more) = pooled names ++ pooled more := by
  simp [pooled]

/-- In front of a name stands what comes before its first use. -/
theorem placeIn_split {front : List String} {name : String} (h : name ∉ front)
    (behind : List String) : placeIn (front ++ name :: behind) name = (pooled front).length := by
  have hfront : ∀ other ∈ front, decide (other ≠ name) = true := by
    intro other hmem
    rw [decide_eq_true_eq]
    intro heq
    exact h (heq ▸ hmem)
  rw [placeIn, List.takeWhile_append_of_pos hfront]
  simp

theorem placeIn_le (names : List String) (name : String) :
    placeIn names name ≤ (pooled names).length := by
  have hsplit := pooled_append (names.takeWhile (· ≠ name)) (names.dropWhile (· ≠ name))
  rw [List.takeWhile_append_dropWhile] at hsplit
  rw [hsplit, List.length_append]
  exact Nat.le_add_right _ _

/-- The place of a name depends only on what is in front of it. -/
theorem placeIn_append {names : List String} {name : String} (h : name ∈ names)
    (more : List String) : placeIn (names ++ more) name = placeIn names name := by
  obtain ⟨front, behind, rfl, hfront⟩ := List.eq_append_cons_of_mem h
  rw [List.append_assoc, List.cons_append, placeIn_split hfront, placeIn_split hfront]

/-- At its place in a pool a name stands, closed by a NUL. -/
theorem textAt_placeIn {names : List String} {name : String} (h : name ∈ names)
    (hplain : '\x00' ∉ name.toList) : Bytes.TextAt (pooled names) (placeIn names name) name := by
  obtain ⟨front, behind, rfl, hfront⟩ := List.eq_append_cons_of_mem h
  refine ⟨hplain, pooled behind, ?_⟩
  rw [placeIn_split hfront, pooled_append, List.drop_left]
  simp [pooled]

/-- The place of a name that has been used stays when more names are used. -/
theorem placeIn_eraseDups_append {names : List String} {name : String} (h : name ∈ names)
    (more : List String) :
    placeIn (names ++ more).eraseDups name = placeIn names.eraseDups name := by
  rw [List.eraseDups_append, placeIn_append (List.mem_eraseDups.mpr h)]

end Schema

/-! ## Interning -/

namespace StringPool

/-- A pool that results from the use of some names, one after the other. -/
structure Holds (pool : StringPool) (names : List String) : Prop where
  bytes : pool.bytes = Schema.pooled names.eraseDups
  lookup : ∀ text, pool.offsets.lookup text =
    if text ∈ names then some (Schema.placeIn names.eraseDups text) else none
  plain : ∀ name ∈ names, '\x00' ∉ name.toList

theorem holds_empty : empty.Holds [] where
  bytes := rfl
  lookup text := by simp [empty]
  plain name h := by cases h

theorem Holds.again {pool : StringPool} {names : List String} {text : String}
    (h : pool.Holds names) (hmem : text ∈ names) : pool.Holds (names ++ [text]) := by
  have hsame : (names ++ [text]).eraseDups = names.eraseDups := by
    rw [Keyed.eraseDups_concat, if_pos hmem]
  constructor
  · rw [hsame]
    exact h.bytes
  · intro other
    rw [hsame, h.lookup]
    by_cases hother : other = text
    · subst hother
      simp [hmem]
    · simp [hother]
  · rw [List.forall_mem_append, List.forall_mem_singleton]
    exact ⟨h.plain, h.plain text hmem⟩

theorem Holds.grow {pool : StringPool} {names : List String} {text : String}
    (h : pool.Holds names) (hnew : text ∉ names) (hplain : '\x00' ∉ text.toList) :
    Holds ⟨pool.bytes ++ Bytes.ofString text ++ [0],
      pool.offsets ++ [(text, pool.bytes.length)]⟩ (names ++ [text]) := by
  have hgrown : (names ++ [text]).eraseDups = names.eraseDups ++ [text] := by
    rw [Keyed.eraseDups_concat, if_neg hnew]
  have hfresh : text ∉ names.eraseDups := fun hin => hnew (List.mem_eraseDups.mp hin)
  constructor
  · rw [hgrown, Schema.pooled_append, ← h.bytes]
    simp [Schema.pooled]
  · intro other
    rw [hgrown, List.lookup_append, h.lookup]
    by_cases hother : other = text
    · subst hother
      simp [hnew, h.bytes, Schema.placeIn_split hfresh]
    · have hne : (other == text) = false := by simpa using hother
      by_cases hold : other ∈ names
      · have hin := List.mem_eraseDups.mpr hold
        simp [hold, Schema.placeIn_append hin]
      · simp [hold, hother, List.lookup_cons, hne]
  · rw [List.forall_mem_append, List.forall_mem_singleton]
    exact ⟨h.plain, hplain⟩

/-- A text is given the place that it has in the pool from then on. -/
theorem Holds.intern {pool next : StringPool} {names : List String} {text : String}
    {offset : Nat} (h : pool.Holds names) (hintern : pool.intern text = .ok (offset, next)) :
    next.Holds (names ++ [text]) ∧ offset = Schema.placeIn (names ++ [text]).eraseDups text := by
  have hlookup := h.lookup text
  unfold StringPool.intern at hintern
  by_cases hmem : text ∈ names
  · rw [if_pos hmem] at hlookup
    rw [hlookup] at hintern
    cases hintern
    refine ⟨h.again hmem, ?_⟩
    rw [Keyed.eraseDups_concat, if_pos hmem]
  · rw [if_neg hmem] at hlookup
    rw [hlookup] at hintern
    by_cases hnul : '\x00' ∈ text.toList
    · simp [hnul] at hintern
    · simp only [if_neg hnul, Except.ok.injEq, Prod.mk.injEq] at hintern
      obtain ⟨rfl, rfl⟩ := hintern
      refine ⟨h.grow hmem hnul, ?_⟩
      have hfresh : text ∉ names.eraseDups := fun hin => hmem (List.mem_eraseDups.mp hin)
      rw [Keyed.eraseDups_concat, if_neg hmem, Schema.placeIn_split hfresh, h.bytes]

end StringPool

end TypeAtlas
