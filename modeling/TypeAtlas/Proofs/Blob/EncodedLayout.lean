import TypeAtlas.Proofs.Blob.Encoding

/-!
# The layout of an encoded schema

For every target and either framing, a blob is laid out as documented: the header carries the
version, the width and the byte order, the table has the length that was planned for it and
reads back as the table of the schema, and the pool holds the distinct names in the order of
their first use, each where the table points.
-/

namespace TypeAtlas.Schema

/-- A type table and a string pool that say for a target what a schema says. -/
structure LaidOut (schema : Schema) (target : Target) (table pool : Bytes) : Prop where
  length_table : table.length = schema.tableLength target.width.bytes
  /-- The table is read from the front of the payload, and the pool is what is left. -/
  reads : TypeTable.read? target (table ++ pool) =
    some (schema.typeTable target.width.bytes, pool)
  /-- The names listed are those of the schema, and each stands behind the table. -/
  names : List.Forall₂
    (fun offset name => table.length ≤ offset ∧ Bytes.TextAt (table ++ pool) offset name)
    (schema.typeTable target.width.bytes).nameOffsets schema.writtenNames
  pool_eq : pool = schema.writtenNames.eraseDups.flatMap fun name => Bytes.ofString name ++ [0]

theorem nameOffsets_tableShape (schema : Schema) (width : Nat) (ty : TypeDef) :
    schema.nameWord width ty.name :: (schema.tableShape width ty).nameOffsets =
      (schema.entryNames ty).map (schema.nameWord width) := by
  unfold tableShape entryNames
  cases ty.kind <;> simp [TableShape.nameOffsets, tableField, tableEnumerator]

/-- The table lists the names of the schema in the order in which they are written. -/
theorem nameOffsets_typeTable (schema : Schema) (width : Nat) :
    (schema.typeTable width).nameOffsets = schema.writtenNames.map (schema.nameWord width) := by
  have hentries : ∀ (types : List TypeDef) (start : Nat),
      (types.zipIdx start).flatMap (fun numbered =>
        schema.nameWord width numbered.1.name :: (schema.tableShape width numbered.1).nameOffsets) =
      types.flatMap fun ty => (schema.entryNames ty).map (schema.nameWord width) := by
    intro types
    induction types with
    | nil => intro start; rfl
    | cons ty rest ih =>
        intro start
        rw [List.zipIdx_cons, List.flatMap_cons, List.flatMap_cons, ih, nameOffsets_tableShape]
  rw [TypeTable.nameOffsets, typeTable, List.flatMap_map, writtenNames, List.map_flatMap]
  exact hentries schema.types 0

theorem Emitted.laidOut {schema : Schema} {target : Target} {table pool : Bytes}
    (h : schema.Emitted target table pool) (hsize : table.length + pool.length < UInt64.size) :
    schema.LaidOut target table pool where
  length_table := h.length_table
  reads := by
    rw [TypeTable.reads target]
    exact ⟨h.fits_typeTable hsize, by rw [h.table_eq]⟩
  names := by
    rw [nameOffsets_typeTable, List.forall₂_map_left_iff, List.forall₂_same]
    intro name hname
    refine ⟨?_, h.textAt hname⟩
    rw [h.length_table]
    exact Nat.le_add_right _ _
  pool_eq := h.pool_eq

/-- Every byte string that the host can hold is shorter than `UInt64.size`. -/
theorem encode_layout {schema : Schema} {options : WriterOptions} {bytes : Bytes}
    (h : schema.encode options = .ok bytes) (hsize : bytes.length < UInt64.size) :
    ∃ target table pool,
      (target.width.bytes = options.pointerWidth.toNat ∧ target.order = options.order) ∧
      schema.LaidOut target table pool ∧
      (schema.plannedLength options.pointerWidth).toNat = table.length ∧
      target.header.toBytes =
        headerMagic ++ [1, options.pointerWidth.toUInt8, options.order.toTag, 0] ∧
      bytes = (if options.framed then target.header.toBytes else []) ++ (table ++ pool) ∧
      schema.encode { options with framed := false } = .ok (table ++ pool) ∧
      schema.encode { options with framed := true } =
        .ok (target.header.toBytes ++ (table ++ pool)) := by
  obtain ⟨target, table, pool, htarget, hparts, hemitted, rfl⟩ := encode_eq_ok h
  obtain ⟨hwidth, horder⟩ := Target.ofOptions_eq_ok_iff.mp htarget
  have hlength : table.length + pool.length < UInt64.size := by
    simp only [List.length_append] at hsize
    omega
  refine ⟨target, table, pool, ⟨?_, horder.symm⟩, hemitted.laidOut hlength, ?_, ?_, rfl, ?_, ?_⟩
  · rw [hwidth]
    cases target.width <;> rfl
  · have hexact : schema.tableLength target.width.bytes < UInt64.size := by
      rw [← hemitted.length_table]
      omega
    rw [hwidth, plannedLength_eq, UInt64.toNat_ofNat_of_lt' hexact, hemitted.length_table]
  · rw [Target.header, Header.toBytes, hwidth, horder]
    cases target.width <;> rfl
  · exact encode_eq htarget hparts
  · have hframed : schema.encode { options with framed := true } =
        .ok (target.header.toBytes ++ table ++ pool) := encode_eq htarget hparts
    rw [hframed, List.append_assoc]

/-- A base type, a struct that names a type of the schema and one that is missing, and an enum
that takes the name of the base type. -/
def sample : Schema where
  arch := none
  types := [
    ⟨"int", .base, 4, [], [], []⟩,
    ⟨"pair", .struct, 8, [],
      [⟨"a", "int", 0, 0, 0, true, false⟩, ⟨"ghost", "missing", 4, 0, 0, false, true⟩,
        ⟨"int", "handle", 4, 1, 0, false, false⟩], []⟩,
    ⟨"int", .enum, 4, [], [], [⟨"NEG", -1⟩, ⟨"a", 1⟩]⟩]

theorem encode_layout_sample :
    ∃ bytes, sample.encode ⟨4, .big, true⟩ = .ok bytes ∧ bytes.length < UInt64.size ∧
      ∃ table pool, sample.LaidOut ⟨.four, .big⟩ table pool ∧
        bytes = (Target.header ⟨.four, .big⟩).toBytes ++ (table ++ pool) := by
  have hencode : ∃ bytes, sample.encode ⟨4, .big, true⟩ = .ok bytes ∧ bytes.length = 132 := by
    cbv
    exact ⟨_, rfl, rfl⟩
  obtain ⟨bytes, hbytes, hlength⟩ := hencode
  have hsize : bytes.length < UInt64.size := by
    rw [hlength]
    decide
  obtain ⟨target, table, pool, ⟨hwidth, horder⟩, hlaid, -, -, hblob, -⟩ :=
    encode_layout hbytes hsize
  have htarget : target = ⟨.four, .big⟩ := by
    obtain ⟨width, order⟩ := target
    have horder : order = .big := horder
    subst horder
    cases width with
    | four => rfl
    | eight => cases hwidth
  subst htarget
  exact ⟨bytes, hbytes, hsize, table, pool, hlaid, hblob⟩

end TypeAtlas.Schema
