import Mathlib.Data.List.Forall2
import TypeAtlas.Blob.TypeTable.Reading
import TypeAtlas.Proofs.Blob.TableLayout

/-!
# Encoded schemas

An encoding that succeeds is a header, if one is asked for, then the type table of the schema,
then its pool of names. The table reads back for every target, and every name in it stands
where the table says.
-/

namespace TypeAtlas

theorem Bytes.TextAt.append_left {bytes : Bytes} {offset : Nat} {text : String}
    (h : Bytes.TextAt bytes offset text) (front : Bytes) :
    Bytes.TextAt (front ++ bytes) (front.length + offset) text := by
  obtain ⟨hplain, behind, hbehind⟩ := h
  refine ⟨hplain, behind, ?_⟩
  rw [← List.drop_drop, List.drop_left, hbehind]

theorem Bytes.TextAt.lt_length {bytes : Bytes} {offset : Nat} {text : String}
    (h : Bytes.TextAt bytes offset text) : offset < bytes.length := by
  obtain ⟨-, behind, hbehind⟩ := h
  have hlen := congrArg List.length hbehind
  simp only [List.length_drop, List.length_append, List.length_cons] at hlen
  omega

namespace Schema

/-! ## The parts of an encoding -/

/-- What a successful emission has written: the schema's table, its pool, and no number that
needs more than a word. -/
structure Emitted (schema : Schema) (target : Target) (table pool : Bytes) : Prop where
  table_eq : table = (schema.typeTable target.width.bytes).toBytes target
  pool_eq : pool = schema.poolBytes
  plain : ∀ name ∈ schema.writtenNames, '\x00' ∉ name.toList
  fits : ∀ item ∈ schema.items,
    item.Fits target fun name => (UInt64.ofNat (schema.nameWord target.width.bytes name)).toNat

theorem encodeParts_eq_ok {schema : Schema} {options : WriterOptions} {table pool : Bytes}
    (h : schema.encodeParts options = .ok (table, pool)) :
    ∃ target, Target.ofOptions options = .ok target ∧ schema.Emitted target table pool := by
  obtain ⟨target, htarget, hrest⟩ := Outcome.bind_eq_ok.mp h
  obtain ⟨⟨bytes, last⟩, hemit, hpair⟩ := Outcome.bind_eq_ok.mp hrest
  cases Outcome.pure_eq_ok.mp hpair
  have hwidth := (Target.ofOptions_eq_ok_iff.mp htarget).1
  obtain ⟨hholds, hbytes, hfits⟩ := Target.emit_eq_ok StringPool.holds_empty hemit
  rw [hwidth, nameNumber_items] at hbytes hfits
  rw [List.nil_append, filterMap_name?_items] at hholds
  refine ⟨target, htarget, ?_, hholds.bytes, hholds.plain, hfits⟩
  rw [hbytes, ← flatMap_items]
  apply Item.flatMap_toBytes_congr
  intro name _
  simp

theorem encode_eq {schema : Schema} {options : WriterOptions} {target : Target}
    {table pool : Bytes} (htarget : Target.ofOptions options = .ok target)
    (h : schema.encodeParts options = .ok (table, pool)) :
    schema.encode options =
      .ok ((if options.framed then target.header.toBytes else []) ++ table ++ pool) := by
  simp only [encode, htarget, h, bind, Except.bind, pure, Except.pure]

theorem encode_eq_ok {schema : Schema} {options : WriterOptions} {bytes : Bytes}
    (h : schema.encode options = .ok bytes) :
    ∃ target table pool, Target.ofOptions options = .ok target ∧
      schema.encodeParts options = .ok (table, pool) ∧ schema.Emitted target table pool ∧
      bytes = (if options.framed then target.header.toBytes else []) ++ (table ++ pool) := by
  obtain ⟨target, htarget, hrest⟩ := Outcome.bind_eq_ok.mp h
  obtain ⟨⟨table, pool⟩, hparts, hbytes⟩ := Outcome.bind_eq_ok.mp hrest
  obtain ⟨other, hother, hemitted⟩ := encodeParts_eq_ok hparts
  rw [htarget] at hother
  cases hother
  refine ⟨target, table, pool, htarget, hparts, hemitted, ?_⟩
  rw [← Outcome.pure_eq_ok.mp hbytes, List.append_assoc]

/-! ## The table fits and names stand -/

theorem mem_items {schema : Schema} {ty : TypeDef} {position : Nat} {item : Item}
    (hty : (ty, position) ∈ schema.types.zipIdx)
    (hitem : item ∈ schema.entryItems ty (position + 1)) : item ∈ schema.items := by
  have hfrom : ∀ (types : List TypeDef) (start : Nat), (ty, position) ∈ types.zipIdx start →
      item ∈ schema.entriesFrom (start + 1) types := by
    intro types
    induction types with
    | nil => intro start hmem; cases hmem
    | cons first rest ih =>
        intro start hmem
        rw [entriesFrom, List.mem_append]
        rw [List.zipIdx_cons] at hmem
        rcases List.mem_cons.mp hmem with heq | hlater
        · cases heq
          exact .inl hitem
        · exact .inr (ih (start + 1) hlater)
  exact List.mem_cons_of_mem _ (hfrom schema.types 0 hty)

namespace Emitted

variable {schema : Schema} {target : Target} {table pool : Bytes}

theorem length_table (h : schema.Emitted target table pool) :
    table.length = schema.tableLength target.width.bytes := by
  rw [h.table_eq, length_typeTable]

/-- A name that is written stands where its word says. -/
theorem textAt (h : schema.Emitted target table pool) {name : String}
    (hname : name ∈ schema.writtenNames) :
    Bytes.TextAt (table ++ pool) (schema.nameWord target.width.bytes name) name := by
  have hplace := textAt_placeIn (List.mem_eraseDups.mpr hname) (h.plain name hname)
  have hbehind := hplace.append_left table
  rwa [h.length_table, ← poolBytes, ← h.pool_eq] at hbehind

theorem fits_word (h : schema.Emitted target table pool) {n : Nat}
    (hmem : Item.word (UInt64.ofNat n) ∈ schema.items) (hn : n < UInt64.size) :
    target.Fits n := by
  have hfits := h.fits _ hmem
  rwa [Item.Fits, UInt64.toNat_ofNat_of_lt' hn] at hfits

theorem fits_name (h : schema.Emitted target table pool)
    (hsize : table.length + pool.length < UInt64.size) {name : String}
    (hmem : Item.name name ∈ schema.items) :
    target.Fits (schema.nameWord target.width.bytes name) := by
  have hname : name ∈ schema.writtenNames := by
    rw [← filterMap_name?_items]
    exact List.mem_filterMap.mpr ⟨_, hmem, rfl⟩
  have hlt := (h.textAt hname).lt_length
  rw [List.length_append] at hlt
  have hfits := h.fits _ hmem
  rwa [Item.Fits, UInt64.toNat_ofNat_of_lt' (by omega)] at hfits

theorem fits_tableField (h : schema.Emitted target table pool)
    (hsize : table.length + pool.length < UInt64.size) {field : FieldDef}
    (hitems : ∀ item ∈ fieldItems (field, schema.fieldTypeId field), item ∈ schema.items) :
    (schema.tableField target.width.bytes field).Fits target := by
  have hid : schema.fieldTypeId field < UInt64.size := by
    have hle := schema.fieldTypeId_le field
    have htypes := schema.length_types_le target.width.bytes
    rw [← h.length_table] at htypes
    omega
  refine ⟨h.fits_name hsize (hitems _ (by simp [fieldItems])), ?_, ?_,
    h.fits_word (n := schema.fieldTypeId field) (hitems _ (by simp [fieldItems])) hid⟩
  · exact h.fits _ (hitems (.word field.offset) (by simp [fieldItems]))
  · exact h.fits _ (hitems (.word field.arraySize) (by simp [fieldItems]))

theorem fits_tableEnumerator (h : schema.Emitted target table pool)
    (hsize : table.length + pool.length < UInt64.size) {enumerator : EnumeratorDef}
    (hitems : ∀ item ∈ enumeratorItems enumerator, item ∈ schema.items) :
    (schema.tableEnumerator target.width.bytes enumerator).Fits target :=
  ⟨h.fits_name hsize (hitems _ (by simp [enumeratorItems])), target.fits_signedNumber _⟩

theorem fits_tableShape (h : schema.Emitted target table pool)
    (hsize : table.length + pool.length < UInt64.size) {ty : TypeDef} (hty : ty ∈ schema.types)
    (hitems : ∀ item ∈ schema.memberItems ty, item ∈ schema.items) :
    (schema.tableShape target.width.bytes ty).Fits target := by
  have hfields : (ty.kind = .struct ∨ ty.kind = .union) →
      target.Fits ((ty.fieldsWithin schema).map (schema.tableField target.width.bytes)).length ∧
      ∀ listed ∈ (ty.fieldsWithin schema).map (schema.tableField target.width.bytes),
        listed.Fits target := by
    intro hkind
    have hmembers : schema.memberItems ty =
        .word (UInt64.ofNat (ty.fieldsWithin schema).length) ::
          (ty.fieldsWithin schema).flatMap fun field =>
            fieldItems (field, schema.fieldTypeId field) := by
      unfold memberItems
      rcases hkind with hkind | hkind <;>
        simp only [hkind, keptFields_eq, List.length_map, List.flatMap_map]
    rw [hmembers] at hitems
    have hle := schema.length_fieldsWithin_le target.width.bytes hty hkind
    rw [← h.length_table] at hle
    constructor
    · rw [List.length_map]
      exact h.fits_word (hitems _ List.mem_cons_self) (by omega)
    · intro listed hmem
      obtain ⟨field, hfield, rfl⟩ := List.mem_map.mp hmem
      apply h.fits_tableField hsize
      intro item hitem
      exact hitems item (List.mem_cons_of_mem _ (List.mem_flatMap.mpr ⟨field, hfield, hitem⟩))
  unfold tableShape
  cases hkind : ty.kind with
  | base => trivial
  | struct => exact hfields (.inl hkind)
  | union => exact hfields (.inr hkind)
  | enum =>
      have hmembers : schema.memberItems ty =
          .word (UInt64.ofNat ty.enumerators.length) ::
            ty.enumerators.flatMap enumeratorItems := by
        unfold memberItems
        simp only [hkind]
      rw [hmembers] at hitems
      have hwidth : 0 < target.width.bytes := by cases target.width <;> decide
      have hle := schema.length_enumerators_le hwidth hty hkind
      rw [← h.length_table] at hle
      constructor
      · rw [List.length_map]
        exact h.fits_word (hitems _ List.mem_cons_self) (by omega)
      · intro listed hmem
        obtain ⟨enumerator, henumerator, rfl⟩ := List.mem_map.mp hmem
        apply h.fits_tableEnumerator hsize
        intro item hitem
        exact hitems item
          (List.mem_cons_of_mem _ (List.mem_flatMap.mpr ⟨enumerator, henumerator, hitem⟩))

/-- Every number of the table fits, so the table reads back. -/
theorem fits_typeTable (h : schema.Emitted target table pool)
    (hsize : table.length + pool.length < UInt64.size) :
    (schema.typeTable target.width.bytes).Fits target := by
  have htypes := schema.length_types_le target.width.bytes
  rw [← h.length_table] at htypes
  constructor
  · simp only [typeTable, List.length_map, List.length_zipIdx]
    exact h.fits_word (n := schema.size) List.mem_cons_self (by unfold size; omega)
  · intro entry hmem
    obtain ⟨⟨ty, position⟩, hty, rfl⟩ := List.mem_map.mp hmem
    have hposition : position < schema.types.length := by
      simpa using List.snd_lt_of_mem_zipIdx hty
    have hitems : ∀ item ∈ schema.entryItems ty (position + 1), item ∈ schema.items :=
      fun _ hitem => mem_items hty hitem
    refine ⟨h.fits_word (n := position + 1) (hitems _ List.mem_cons_self) (by omega),
      h.fits_name hsize (hitems _ (by simp [entryItems])), ?_, ?_⟩
    · exact h.fits _ (hitems (.word ty.size) (by simp [entryItems]))
    · apply h.fits_tableShape hsize (List.fst_mem_of_mem_zipIdx hty)
      intro item hitem
      exact hitems item (by simp [entryItems, hitem])

end Emitted

end Schema

end TypeAtlas
