import TypeAtlas.Blob.Audit
import TypeAtlas.Proofs.Blob.TableLayout

/-!
# The extent of an encoding

How long the table and the pool of a schema can be, measured by its types and members and by the
text of its names. Each part takes a field's record in the table at most, and one NUL in the pool.
-/

namespace TypeAtlas.Schema

/-! ## Tables -/

theorem length_types_le_parts (schema : Schema) : schema.types.length ≤ schema.partCount :=
  Nat.le_add_right _ _

theorem length_fieldsWithin_le_fields (schema : Schema) (ty : TypeDef) :
    (ty.fieldsWithin schema).length ≤ ty.fields.length :=
  List.length_filter_le _ _

theorem entryLength_le_parts (schema : Schema) (width : Nat) (ty : TypeDef) :
    schema.entryLength width ty ≤
      (4 * width + 5) * (1 + (ty.fields.length + ty.enumerators.length)) := by
  have hwithin := Nat.mul_le_mul_right (4 * width + 5)
    (schema.length_fieldsWithin_le_fields ty)
  have henumerators : ty.enumerators.length * (2 * width) ≤
      (4 * width + 5) * ty.enumerators.length := by
    rw [Nat.mul_comm]
    exact Nat.mul_le_mul_right _ (by omega)
  have hfields := Nat.mul_comm ty.fields.length (4 * width + 5)
  rw [Nat.mul_add, Nat.mul_add, Nat.mul_one]
  unfold entryLength
  rw [show 4 * width + 1 + 4 = 4 * width + 5 by omega]
  cases ty.kind <;> simp only <;> omega

/-- A table takes a field's record for each part of the schema at most. -/
theorem tableLength_le (schema : Schema) (width : Nat) :
    schema.tableLength width ≤ width + (4 * width + 5) * schema.partCount := by
  have hsum : ∀ types : List TypeDef,
      (types.map (schema.entryLength width)).foldr (· + ·) 0 ≤ (4 * width + 5) *
        (types.length + (types.map fun ty =>
          ty.fields.length + ty.enumerators.length).foldr (· + ·) 0) := by
    intro types
    induction types with
    | nil => simp
    | cons ty rest ih =>
        have hfirst := schema.entryLength_le_parts width ty
        rw [List.map_cons, List.foldr_cons, List.length_cons, List.map_cons, List.foldr_cons]
        calc
          _ ≤ _ := Nat.add_le_add hfirst ih
          _ = _ := by rw [← Nat.mul_add]; congr 1; omega
  exact Nat.add_le_add_left (hsum schema.types) width

/-- Widths of up to eight thousand bytes are planned for without harm. -/
theorem planFits_of_le {schema : Schema} (hparts : schema.partCount < 2 ^ 48) {width : Nat}
    (hwidth : width ≤ 8192) : schema.PlanFits width := by
  have hle := schema.tableLength_le width
  have hmul : (4 * width + 5) * schema.partCount ≤ 32773 * schema.partCount :=
    Nat.mul_le_mul_right _ (by omega)
  have hsize : UInt64.size = 18446744073709551616 := rfl
  exact ⟨by omega, fun _ _ _ => by omega⟩

/-! ## Pools -/

/-- The pool of some names is not longer than the pool when more names are used. -/
theorem length_pooled_le (used more : List String) :
    (pooled used.eraseDups).length ≤ (pooled (used ++ more).eraseDups).length := by
  rw [List.eraseDups_append, pooled_append, List.length_append]
  exact Nat.le_add_right _ _

theorem length_writtenNames_le (schema : Schema) :
    schema.writtenNames.length ≤ schema.partCount := by
  have hentry : ∀ ty : TypeDef, (schema.entryNames ty).length ≤
      1 + (ty.fields.length + ty.enumerators.length) := by
    intro ty
    have hwithin := schema.length_fieldsWithin_le_fields ty
    unfold entryNames
    cases ty.kind <;> simp only [List.length_cons, List.length_nil, List.length_map] <;> omega
  unfold writtenNames partCount
  induction schema.types with
  | nil => simp
  | cons ty rest ih =>
      have hfirst := hentry ty
      rw [List.flatMap_cons, List.length_append, List.length_cons, List.map_cons, List.foldr_cons]
      omega

theorem length_pooled (names : List String) :
    (pooled names).length =
      (names.map fun name => (Bytes.ofString name).length).foldr (· + ·) 0 + names.length := by
  induction names with
  | nil => rfl
  | cons name rest ih =>
      have hcons : pooled (name :: rest) = Bytes.ofString name ++ [0] ++ pooled rest := rfl
      rw [hcons, List.length_append, List.length_append, List.length_singleton, ih, List.map_cons,
        List.foldr_cons, List.length_cons]
      omega

theorem length_poolBytes_le (schema : Schema) :
    schema.poolBytes.length ≤ schema.textLength + schema.partCount := by
  have hdistinct : schema.writtenNames.eraseDups.length ≤ schema.writtenNames.length :=
    Keyed.length_eraseDups_le _
  have hnames := schema.length_writtenNames_le
  rw [poolBytes, length_pooled, ← textLength]
  omega

end TypeAtlas.Schema
