import TypeAtlas.Blob.TypeTable

/-!
# Reading type tables

The number, member, entry or table at the front of some bytes, for every target, and what
stands behind it. `Target.reads_word`, `TypeTable.reads` and the statements between them
say that each reader finds exactly what is written, when every number fits a word.
-/

namespace TypeAtlas

namespace Target

/-- The number in the word at the front, and the bytes behind it. -/
def readWord? (target : Target) (bytes : Bytes) : Option (Nat × Bytes) :=
  if target.width.bytes ≤ bytes.length then
    some (Bytes.toWord target.order (bytes.take target.width.bytes),
      bytes.drop target.width.bytes)
  else none

def readHalf? (target : Target) (bytes : Bytes) : Option (UInt32 × Bytes) :=
  if 4 ≤ bytes.length then
    some (UInt32.ofNat (Bytes.toWord target.order (bytes.take 4)), bytes.drop 4)
  else none

end Target

namespace TypeTable

def readTimes (read? : Bytes → Option (α × Bytes)) : Nat → Bytes → Option (List α × Bytes)
  | 0, bytes => some ([], bytes)
  | count + 1, bytes => do
    let (first, bytes) ← read? bytes
    let (rest, bytes) ← readTimes read? count bytes
    return (first :: rest, bytes)

def readByte? : Bytes → Option (UInt8 × Bytes)
  | [] => none
  | byte :: rest => some (byte, rest)

def readField? (target : Target) (bytes : Bytes) : Option (TableField × Bytes) := do
  let (name, bytes) ← target.readWord? bytes
  let (flag, bytes) ← readByte? bytes
  let (pointerDepth, bytes) ← target.readHalf? bytes
  let (offset, bytes) ← target.readWord? bytes
  let (arraySize, bytes) ← target.readWord? bytes
  let (typeId, bytes) ← target.readWord? bytes
  return (⟨name, flag, pointerDepth, offset, arraySize, typeId⟩, bytes)

def readEnumerator? (target : Target) (bytes : Bytes) : Option (TableEnumerator × Bytes) := do
  let (name, bytes) ← target.readWord? bytes
  let (value, bytes) ← target.readWord? bytes
  return (⟨name, value⟩, bytes)

def readFields? (target : Target) (bytes : Bytes) : Option (List TableField × Bytes) := do
  let (count, bytes) ← target.readWord? bytes
  readTimes (readField? target) count bytes

def readEnumerators? (target : Target) (bytes : Bytes) :
    Option (List TableEnumerator × Bytes) := do
  let (count, bytes) ← target.readWord? bytes
  readTimes (readEnumerator? target) count bytes

def readShape? (target : Target) (bytes : Bytes) : TypeKind → Option (TableShape × Bytes)
  | .base => some (.base, bytes)
  | .struct => (readFields? target bytes).map fun (fields, bytes) => (.struct fields, bytes)
  | .union => (readFields? target bytes).map fun (fields, bytes) => (.union fields, bytes)
  | .enum =>
    (readEnumerators? target bytes).map fun (enumerators, bytes) => (.enum enumerators, bytes)

def readType? (target : Target) (bytes : Bytes) : Option (TableEntry × Bytes) := do
  let (id, bytes) ← target.readWord? bytes
  let (tag, bytes) ← readByte? bytes
  let kind ← TypeKind.ofByte? tag
  let (name, bytes) ← target.readWord? bytes
  let (size, bytes) ← target.readWord? bytes
  let (shape, bytes) ← readShape? target bytes kind
  return (⟨id, name, size, shape⟩, bytes)

/-- The table at the front of some bytes, and the bytes behind it. -/
def read? (target : Target) (bytes : Bytes) : Option (TypeTable × Bytes) := do
  let (count, bytes) ← target.readWord? bytes
  let (entries, bytes) ← readTimes (readType? target) count bytes
  return (⟨entries⟩, bytes)

end TypeTable

/-! ## Reading inverts writing -/

/-- A reader finds exactly the values of a kind, each where it is written. -/
def Reads (read? : Bytes → Option (α × Bytes)) (write : α → Bytes) (valid : α → Prop) : Prop :=
  ∀ bytes value tail,
    read? bytes = some (value, tail) ↔ valid value ∧ bytes = write value ++ tail

theorem Target.reads_word (target : Target) :
    Reads target.readWord? target.ofNat target.Fits := by
  intro bytes n tail
  constructor
  · intro h
    unfold Target.readWord? at h
    split at h
    · next hlen =>
      obtain ⟨rfl, rfl⟩ := by simpa using h
      have htake : (bytes.take target.width.bytes).length = target.width.bytes := by
        rw [List.length_take]
        omega
      have hfits := Bytes.toWord_lt target.order (bytes.take target.width.bytes)
      have hback := Bytes.ofWord_toWord target.order (bytes.take target.width.bytes)
      rw [htake] at hfits hback
      refine ⟨hfits, ?_⟩
      rw [Target.ofNat, hback, List.take_append_drop]
    · cases h
  · rintro ⟨hfits, rfl⟩
    have hlen : (target.ofNat n).length = target.width.bytes := by simp [Target.ofNat]
    have hword : Bytes.toWord target.order (target.ofNat n) = n := by
      rw [Target.ofNat, Bytes.toWord_ofWord, Nat.mod_eq_of_lt hfits]
    simp [Target.readWord?, hlen, hword]

theorem Target.reads_half (target : Target) :
    Reads target.readHalf? target.half fun _ => True := by
  intro bytes value tail
  constructor
  · intro h
    unfold Target.readHalf? at h
    split at h
    · next hlen =>
      obtain ⟨rfl, rfl⟩ := by simpa using h
      have htake : (bytes.take 4).length = 4 := by
        rw [List.length_take]
        omega
      have hfits := Bytes.toWord_lt target.order (bytes.take 4)
      have hback := Bytes.ofWord_toWord target.order (bytes.take 4)
      rw [htake] at hfits hback
      refine ⟨trivial, ?_⟩
      rw [Target.half, UInt32.toNat_ofNat_of_lt' hfits, hback, List.take_append_drop]
    · cases h
  · rintro ⟨-, rfl⟩
    have hlen : (target.half value).length = 4 := by simp [Target.half]
    have hlt : value.toNat < Bytes.wordCount 4 := value.toNat_lt
    have hword : Bytes.toWord target.order (target.half value) = value.toNat := by
      rw [Target.half, Bytes.toWord_ofWord, Nat.mod_eq_of_lt hlt]
    simp [Target.readHalf?, hlen, hword]

namespace TypeTable

theorem reads_byte : Reads readByte? (fun byte => [byte]) fun _ => True := by
  intro bytes value tail
  cases bytes with
  | nil => simp [readByte?]
  | cons byte rest => simp [readByte?]

theorem reads_times {read? : Bytes → Option (α × Bytes)} {write : α → Bytes}
    {valid : α → Prop} (h : Reads read? write valid) (count : Nat) :
    Reads (readTimes read? count) (fun values => values.flatMap write)
      fun values => values.length = count ∧ ∀ value ∈ values, valid value := by
  induction count with
  | zero =>
    intro bytes values tail
    cases values with
    | nil => simp [readTimes]
    | cons first rest => simp [readTimes]
  | succ count ih =>
    intro bytes values tail
    cases values with
    | nil => simp [readTimes, Option.bind_eq_some_iff]
    | cons first rest =>
      simp only [readTimes, Option.bind_eq_bind, Option.bind_eq_some_iff, Prod.exists,
        Option.pure_def, Option.some.injEq, Prod.mk.injEq, List.cons.injEq, h _ _ _, ih _ _ _]
      constructor
      · rintro ⟨value, behind, ⟨hvalid, rfl⟩, values, _, ⟨⟨hcount, hall⟩, rfl⟩, ⟨rfl, rfl⟩, rfl⟩
        simp_all
      · rintro ⟨⟨hcount, hall⟩, rfl⟩
        refine ⟨first, rest.flatMap write ++ tail, ⟨hall first List.mem_cons_self, by simp⟩,
          rest, tail, ⟨⟨by simpa using hcount, ?_⟩, rfl⟩, ⟨rfl, rfl⟩, rfl⟩
        intro value hmem
        exact hall value (List.mem_cons_of_mem first hmem)

theorem reads_field (target : Target) :
    Reads (readField? target) (TableField.toBytes target) (TableField.Fits target) := by
  intro bytes field tail
  simp only [readField?, Option.bind_eq_bind, Option.bind_eq_some_iff, Prod.exists,
    Option.pure_def, Option.some.injEq, Prod.mk.injEq, target.reads_word _ _ _,
    target.reads_half _ _ _, reads_byte _ _ _]
  constructor
  · rintro ⟨name, _, ⟨hname, rfl⟩, flag, _, ⟨-, rfl⟩, depth, _, ⟨-, rfl⟩, offset, _,
      ⟨hoffset, rfl⟩, size, _, ⟨hsize, rfl⟩, id, _, ⟨hid, rfl⟩, rfl, rfl⟩
    exact ⟨⟨hname, hoffset, hsize, hid⟩, by simp [TableField.toBytes]⟩
  · rintro ⟨⟨hname, hoffset, hsize, hid⟩, rfl⟩
    refine ⟨field.name, _, ⟨hname, ?_⟩, field.flag, _, ⟨trivial, rfl⟩, field.pointerDepth, _,
      ⟨trivial, rfl⟩, field.offset, _, ⟨hoffset, rfl⟩, field.arraySize, _, ⟨hsize, rfl⟩,
      field.typeId, tail, ⟨hid, rfl⟩, rfl, rfl⟩
    simp [TableField.toBytes]

theorem reads_enumerator (target : Target) :
    Reads (readEnumerator? target) (TableEnumerator.toBytes target)
      (TableEnumerator.Fits target) := by
  intro bytes enumerator tail
  simp only [readEnumerator?, Option.bind_eq_bind, Option.bind_eq_some_iff, Prod.exists,
    Option.pure_def, Option.some.injEq, Prod.mk.injEq, target.reads_word _ _ _]
  constructor
  · rintro ⟨name, _, ⟨hname, rfl⟩, value, _, ⟨hvalue, rfl⟩, rfl, rfl⟩
    exact ⟨⟨hname, hvalue⟩, by simp [TableEnumerator.toBytes]⟩
  · rintro ⟨⟨hname, hvalue⟩, rfl⟩
    refine ⟨enumerator.name, _, ⟨hname, ?_⟩, enumerator.value, tail, ⟨hvalue, rfl⟩, rfl, rfl⟩
    simp [TableEnumerator.toBytes]

/-- A counted list, read as its count and then as many values. -/
theorem reads_counted {read? : Bytes → Option (α × Bytes)} {write : α → Bytes}
    {valid : α → Prop} (target : Target) (h : Reads read? write valid) :
    Reads (fun bytes => do
        let (count, bytes) ← target.readWord? bytes
        readTimes read? count bytes)
      (fun values => target.ofNat values.length ++ values.flatMap write)
      fun values => target.Fits values.length ∧ ∀ value ∈ values, valid value := by
  intro bytes values tail
  simp only [Option.bind_eq_bind, Option.bind_eq_some_iff, Prod.exists,
    target.reads_word _ _ _, reads_times h _ _ _ _]
  constructor
  · rintro ⟨count, _, ⟨hcount, rfl⟩, ⟨rfl, hall⟩, rfl⟩
    exact ⟨⟨hcount, hall⟩, by simp⟩
  · rintro ⟨⟨hcount, hall⟩, rfl⟩
    exact ⟨values.length, _, ⟨hcount, List.append_assoc ..⟩, ⟨rfl, hall⟩, rfl⟩

theorem readShape?_eq_some_iff {target : Target} {bytes tail : Bytes} {kind : TypeKind}
    {shape : TableShape} :
    readShape? target bytes kind = some (shape, tail) ↔
      shape.kind = kind ∧ shape.Fits target ∧ bytes = shape.toBytes target ++ tail := by
  have hfields : Reads (readFields? target) _ _ := reads_counted target (reads_field target)
  have henumerators : Reads (readEnumerators? target) _ _ :=
    reads_counted target (reads_enumerator target)
  cases kind <;> cases shape <;>
    simp [readShape?, TableShape.kind, TableShape.Fits, TableShape.toBytes, hfields _ _ _,
      henumerators _ _ _]

theorem reads_type (target : Target) :
    Reads (readType? target) (TableEntry.toBytes target) (TableEntry.Fits target) := by
  intro bytes entry tail
  simp only [readType?, Option.bind_eq_bind, Option.bind_eq_some_iff, Prod.exists,
    Option.pure_def, Option.some.injEq, Prod.mk.injEq, target.reads_word _ _ _,
    reads_byte _ _ _, readShape?_eq_some_iff]
  constructor
  · rintro ⟨id, _, ⟨hid, rfl⟩, tag, _, ⟨-, rfl⟩, kind, hkind, name, _, ⟨hname, rfl⟩, size, _,
      ⟨hsize, rfl⟩, shape, _, ⟨rfl, hshape, rfl⟩, rfl, rfl⟩
    have htag := TypeKind.toByte_of_ofByte? hkind
    exact ⟨⟨hid, hname, hsize, hshape⟩, by simp [TableEntry.toBytes, htag]⟩
  · rintro ⟨⟨hid, hname, hsize, hshape⟩, rfl⟩
    refine ⟨entry.id, _, ⟨hid, ?_⟩, entry.shape.kind.toByte, _, ⟨trivial, rfl⟩, entry.shape.kind,
      TypeKind.ofByte?_toByte _, entry.name, _, ⟨hname, rfl⟩, entry.size, _, ⟨hsize, rfl⟩,
      entry.shape, tail, ⟨rfl, hshape, rfl⟩, rfl, rfl⟩
    simp [TableEntry.toBytes]

/-- A table is read exactly from the bytes that it makes, when its numbers fit. -/
theorem reads (target : Target) :
    Reads (read? target) (TypeTable.toBytes target) (TypeTable.Fits target) := by
  intro bytes table tail
  obtain ⟨entries⟩ := table
  have hentries := reads_counted target (reads_type target) bytes entries tail
  simp only [read?, TypeTable.toBytes, TypeTable.Fits, ← hentries]
  simp [Option.bind_eq_some_iff]

end TypeTable

end TypeAtlas
