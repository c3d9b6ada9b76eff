import TypeAtlas.Value.Audit

/-!
# Access through views

A field has a view exactly when it lies in the value as a whole. What is stored through the view is
read back, and bytes that are put into a value change the part that they are put over and no other,
so what is read from the other parts stays. No access reaches beyond the bytes of its view.
-/

namespace TypeAtlas

/-! ## Parts of a value -/

namespace Bytes

theorem getElem?_slice (bytes : Bytes) (offset count position : Nat) :
    (bytes.slice offset count)[position]? =
      if position < count then bytes[offset + position]? else none := by
  rw [slice, List.getElem?_take, List.getElem?_drop]

theorem getElem?_overwrite {bytes replacement : Bytes} {offset : Nat}
    (h : offset + replacement.length ≤ bytes.length) (position : Nat) :
    (bytes.overwrite offset replacement)[position]? =
      if offset ≤ position ∧ position < offset + replacement.length then
        replacement[position - offset]?
      else bytes[position]? := by
  have htake : (bytes.take offset).length = offset := by
    rw [List.length_take]
    omega
  rw [overwrite, List.append_assoc]
  by_cases hbefore : position < offset
  · rw [List.getElem?_append_left (by omega), List.getElem?_take, if_pos hbefore,
      if_neg (by omega)]
  · rw [List.getElem?_append_right (by omega), htake]
    by_cases hinside : position < offset + replacement.length
    · rw [List.getElem?_append_left (by omega), if_pos (by omega)]
    · rw [List.getElem?_append_right (by omega), List.getElem?_drop, if_neg (by omega)]
      congr 1
      omega

/-- A part of a part is a part of the whole. -/
theorem slice_slice (bytes : Bytes) (start : Nat) {offset count length : Nat}
    (h : offset + count ≤ length) :
    (bytes.slice start length).slice offset count = bytes.slice (start + offset) count := by
  apply List.ext_getElem?
  intro position
  simp only [getElem?_slice]
  by_cases hposition : position < count
  · rw [if_pos hposition, if_pos hposition, if_pos (by omega), Nat.add_assoc]
  · rw [if_neg hposition, if_neg hposition]

/-- A part that lies apart from what is overwritten stays. -/
theorem slice_overwrite_of_apart {bytes replacement : Bytes} {offset : Nat}
    (h : offset + replacement.length ≤ bytes.length) {start count : Nat}
    (hapart : start + count ≤ offset ∨ offset + replacement.length ≤ start) :
    (bytes.overwrite offset replacement).slice start count = bytes.slice start count := by
  apply List.ext_getElem?
  intro position
  simp only [getElem?_slice, getElem?_overwrite h]
  by_cases hposition : position < count
  · rw [if_pos hposition, if_pos hposition, if_neg (by omega)]
  · rw [if_neg hposition, if_neg hposition]

/-- To overwrite inside of a part is to overwrite the part. -/
theorem slice_overwrite_inside {bytes replacement : Bytes} {start offset count : Nat}
    (h : start + count ≤ bytes.length) (hinside : offset + replacement.length ≤ count) :
    (bytes.overwrite (start + offset) replacement).slice start count =
      (bytes.slice start count).overwrite offset replacement := by
  have hwhole : start + offset + replacement.length ≤ bytes.length := by omega
  have hpart : offset + replacement.length ≤ (bytes.slice start count).length := by
    rw [length_slice h]
    exact hinside
  apply List.ext_getElem?
  intro position
  rw [getElem?_slice, getElem?_overwrite hwhole, getElem?_overwrite hpart, getElem?_slice]
  by_cases hposition : position < count
  · rw [if_pos hposition, if_pos hposition]
    by_cases hover : offset ≤ position ∧ position < offset + replacement.length
    · rw [if_pos hover, if_pos (by omega)]
      congr 1
      omega
    · rw [if_neg hover, if_neg (by omega)]
  · rw [if_neg hposition, if_neg hposition, if_neg (by omega)]

/-- Bytes that are overwritten from end to end are what is put over them. -/
theorem overwrite_all {bytes replacement : Bytes} (h : replacement.length = bytes.length) :
    bytes.overwrite 0 replacement = replacement := by
  rw [overwrite, List.take_zero, List.nil_append, Nat.zero_add, h, List.drop_length,
    List.append_nil]

end Bytes

/-! ## Views -/

/-- Bytes that a field covers, counted without a bound: for each element a word if it is a pointer,
else the size of its type, which is zero while the type is not known. -/
def Registry.extentOf (registry : Registry) (field : Field) : Nat :=
  (if field.isPointer then hostWidth
    else ((registry.typeOfField? field).map (·.size.toNat)).getD 0) * max field.arraySize.toNat 1

/-- The view is that of the field of some name: the field ends at a number that a word holds, inside
of the value, and the view is of just its bytes. -/
def Registry.IsView (registry : Registry) (value : Bytes) (name : String) (type : TypeRecord)
    (view : FieldView) : Prop :=
  ∃ field, type.field? name = some field ∧
    field.offset.toNat + registry.extentOf field < UInt64.size ∧
    field.offset.toNat + registry.extentOf field ≤ value.length ∧
    view = ⟨field, registry.typeOfField? field, value, field.offset.toNat,
      registry.extentOf field⟩

structure FieldView.Inside (view : FieldView) : Prop where
  word : view.start + view.length < UInt64.size
  value : view.start + view.length ≤ view.value.length

namespace Registry

theorem extent?_eq (registry : Registry) (field : Field) :
    registry.extent? field =
      if registry.extentOf field < UInt64.size then some (registry.extentOf field) else none := by
  unfold extent? extentOf
  cases registry.typeOfField? field <;> rfl

theorem span?_eq (registry : Registry) (field : Field) (length : Nat) :
    registry.span? field length =
      if field.offset.toNat + registry.extentOf field < UInt64.size ∧
          field.offset.toNat + registry.extentOf field ≤ length then
        some (field.offset.toNat, registry.extentOf field)
      else none := by
  rw [span?, extent?_eq]
  by_cases hextent : registry.extentOf field < UInt64.size
  · rw [if_pos hextent]
    rfl
  · rw [if_neg hextent, if_neg (by omega)]
    rfl

theorem view?_eq_some_iff {registry : Registry} {value : Bytes} {name : String}
    {type : TypeRecord} {view : FieldView} :
    registry.view? value name type = some view ↔ registry.IsView value name type view := by
  unfold view? IsView
  cases type.field? name with
  | none => simp
  | some field =>
      rw [Option.bind_eq_bind, Option.bind_some, span?_eq]
      split
      · next hfits => simp [hfits, eq_comm]
      · next hout =>
          simp only [Option.bind_eq_bind, Option.bind_none, reduceCtorEq, Option.some.injEq,
            exists_eq_left', false_iff]
          exact fun h => hout ⟨h.1, h.2.1⟩

theorem IsView.inside {registry : Registry} {value : Bytes} {name : String} {type : TypeRecord}
    {view : FieldView} (h : registry.IsView value name type view) : view.Inside := by
  obtain ⟨field, -, hword, hvalue, rfl⟩ := h
  exact ⟨hword, hvalue⟩

/-- Which views there are depends only on how long the value is. -/
theorem view?_of_length_eq (registry : Registry) {value other : Bytes}
    (h : other.length = value.length) (name : String) (type : TypeRecord) :
    registry.view? other name type =
      (registry.view? value name type).map fun view => { view with value := other } := by
  unfold view?
  rw [h]
  cases type.field? name with
  | none => rfl
  | some field =>
      simp only [Option.bind_eq_bind, Option.bind_some]
      cases registry.span? field value.length <;> rfl

end Registry

namespace FieldView

variable {view : FieldView}

theorem Inside.length_bytes (h : view.Inside) : view.bytes.length = view.length :=
  Bytes.length_slice h.value

/-! ## Writing and reading back -/

/-- A number is put at an offset of a view exactly if it lies in the view there. Then it is read
back, and no other byte of the value changes, so that its views stay where they are and read apart
from the number what they did before. If it does not lie there nothing changes. -/
structure PutAt (view : FieldView) (scalar : Scalar) (offset : Nat) (number : Int)
    (readBack : FieldView → Option Int) (answer : Bool × FieldView) : Prop where
  accepted : answer.1 = true ↔
    offset + scalar.size < UInt64.size ∧ offset + scalar.size ≤ view.length
  refused : answer.1 = false → answer.2 = view
  same : answer.2 = { view with value := answer.2.value }
  length : answer.2.value.length = view.value.length
  restored : answer.1 = true → scalar.holds number → readBack answer.2 = some number
  elsewhere : answer.1 = true → ∀ position,
    position < view.start + offset ∨ view.start + offset + scalar.size ≤ position →
      answer.2.value[position]? = view.value[position]?
  views : ∀ (registry : Registry) name type, registry.view? answer.2.value name type =
    (registry.view? view.value name type).map fun other =>
      { other with value := answer.2.value }
  apart : answer.1 = true → ∀ (other : FieldView) (kind : Scalar) place, other.value = view.value →
    other.start + place + kind.size ≤ view.start + offset ∨
      view.start + offset + scalar.size ≤ other.start + place →
    { other with value := answer.2.value }.readAt kind place = other.readAt kind place

theorem putAt_writeAt (h : view.Inside) (scalar : Scalar) (offset : Nat) (number : Int) :
    view.PutAt scalar offset number (·.readAt scalar offset)
      (view.writeAt scalar offset number) := by
  have hnumber : (scalar.toBytes number).length = scalar.size := scalar.length_toBytes number
  have hword := h.word
  have hvalue := h.value
  by_cases hfits : offset + scalar.size ≤ view.length
  · have hinside : view.start + offset + (scalar.toBytes number).length ≤ view.value.length := by
      omega
    have hwrite : view.writeAt scalar offset number = (true, { view with
        value := view.value.overwrite (view.start + offset) (scalar.toBytes number) }) :=
      if_pos hfits
    have hlength := Bytes.length_overwrite hinside
    rw [hwrite]
    refine ⟨?_, ?_, rfl, hlength, ?_, ?_, ?_, ?_⟩
    · simp only [true_iff]
      omega
    · simp
    · intro _ hholds
      rw [← readAt_writeAt hvalue hfits hholds, hwrite]
    · intro _ position hout
      rw [Bytes.getElem?_overwrite hinside, if_neg (by omega)]
    · exact fun registry name type => registry.view?_of_length_eq hlength name type
    · intro _ other kind place hother hapart
      simp only [readAt, hother]
      rw [Bytes.slice_overwrite_of_apart hinside (by omega)]
  · rw [writeAt_of_not_fits hfits]
    refine ⟨?_, fun _ => rfl, rfl, rfl, by simp, by simp, ?_, by simp⟩
    · simp [hfits]
    · exact fun registry name type => registry.view?_of_length_eq rfl name type

/-! ## What accesses take -/

end FieldView

/-- An audited answer is the plain one, and all that is taken on the way is there. -/
structure InRange (audit : List Demand × α) (answer : α) : Prop where
  answer_eq : audit.2 = answer
  met : ∀ demand ∈ audit.1, demand.Met 0

theorem Scalar.met_demands {scalar : Scalar} {bytes : Bytes} (h : scalar.size ≤ bytes.length) :
    ∀ demand ∈ scalar.demands bytes, demand.Met 0 := by
  intro demand hmem
  rcases List.mem_cons.mp hmem with rfl | hlater
  · exact ⟨Nat.zero_le _, h⟩
  · rw [List.mem_singleton.mp hlater]
    exact List.length_take_of_le h

theorem inRange_refused (answer : α) : InRange ([], answer) answer :=
  ⟨rfl, fun _ hmem => (List.not_mem_nil hmem).elim⟩

theorem Registry.inRange_view (registry : Registry) (value : Bytes) (name : String)
    (type : TypeRecord) :
    InRange (registry.auditedView? value name type) (registry.view? value name type) := by
  unfold auditedView? view?
  cases type.field? name with
  | none => exact inRange_refused none
  | some field =>
      simp only [Option.bind_eq_bind, Option.bind_some]
      cases hspan : registry.span? field value.length with
      | none => exact inRange_refused none
      | some span =>
          have hvalue : span.1 + span.2 ≤ value.length := by
            rw [span?_eq] at hspan
            split at hspan
            · next hfits =>
                cases hspan
                exact hfits.2
            · cases hspan
          refine ⟨rfl, fun demand hmem => ?_⟩
          rw [List.mem_singleton.mp hmem]
          exact ⟨Nat.le_add_right _ _, hvalue⟩

namespace FieldView

variable {view : FieldView}

theorem take_bytes (view : FieldView) {count : Nat} (h : count ≤ view.length) :
    view.bytes.take count = view.value.slice view.start count := by
  have hpart := Bytes.slice_slice view.value view.start (Nat.zero_add count ▸ h)
  rwa [Bytes.slice, List.drop_zero] at hpart

theorem inRange_read (h : view.Inside) (scalar : Scalar) :
    InRange (view.auditedRead scalar) (view.read scalar) := by
  rw [auditedRead, read, readAt, h.length_bytes, Nat.zero_add]
  by_cases hfits : scalar.size ≤ view.length
  · rw [if_pos hfits, if_pos hfits, Scalar.auditedRead, view.take_bytes hfits]
    exact ⟨rfl, Scalar.met_demands (by rw [h.length_bytes]; exact hfits)⟩
  · rw [if_neg hfits, if_neg hfits]
    exact inRange_refused none

theorem inRange_readElement (h : view.Inside) (scalar : Scalar) (index : Nat) :
    InRange (view.auditedReadElement scalar index) (view.readElement scalar index) := by
  simp only [auditedReadElement, readElement, readAt, h.length_bytes]
  by_cases hfits : index * scalar.size + scalar.size ≤ view.length
  · have helement : view.bytes.slice (index * scalar.size) scalar.size =
        view.value.slice (view.start + index * scalar.size) scalar.size :=
      Bytes.slice_slice _ _ hfits
    have hlength : (view.value.slice (view.start + index * scalar.size) scalar.size).length =
        scalar.size := Bytes.length_slice (by have := h.value; omega)
    rw [if_pos hfits, if_pos hfits, helement, Scalar.auditedRead,
      List.take_of_length_le (Nat.le_of_eq hlength)]
    exact ⟨rfl, Scalar.met_demands (Nat.le_of_eq hlength.symm)⟩
  · rw [if_neg hfits, if_neg hfits]
    exact inRange_refused none

/-- What is seen of a write in the view itself: whether it was accepted, and the bytes then. -/
def seen (answer : Bool × FieldView) : Bool × Bytes := (answer.1, answer.2.bytes)

theorem seen_writeAt (h : view.Inside) {scalar : Scalar} {offset : Nat} (number : Int)
    (hfits : offset + scalar.size ≤ view.length) :
    seen (view.writeAt scalar offset number) =
      (true, view.bytes.overwrite offset (scalar.toBytes number)) := by
  have hnumber : (scalar.toBytes number).length = scalar.size := scalar.length_toBytes number
  have hinside : offset + (scalar.toBytes number).length ≤ view.length := by omega
  rw [writeAt, if_pos hfits]
  exact congrArg (true, ·) (Bytes.slice_overwrite_inside h.value hinside)

theorem seen_writeAt_of_not_fits {scalar : Scalar} {offset : Nat} (number : Int)
    (hfits : ¬ offset + scalar.size ≤ view.length) :
    seen (view.writeAt scalar offset number) = (false, view.bytes) := by
  rw [writeAt_of_not_fits hfits]
  rfl

theorem inRange_write (h : view.Inside) (scalar : Scalar) (number : Int) :
    InRange (view.auditedWrite scalar number) (seen (view.write scalar number)) := by
  simp only [auditedWrite, write, h.length_bytes]
  by_cases hfits : scalar.size ≤ view.length
  · rw [if_pos hfits, seen_writeAt h number (by omega)]
    exact ⟨rfl, Scalar.met_demands (by rw [h.length_bytes]; exact hfits)⟩
  · rw [if_neg hfits, seen_writeAt_of_not_fits number (by omega)]
    exact inRange_refused _

theorem inRange_writeElement (h : view.Inside) (scalar : Scalar) (index : Nat) (number : Int) :
    InRange (view.auditedWriteElement scalar index number)
      (seen (view.writeElement scalar index number)) := by
  simp only [auditedWriteElement, writeElement, h.length_bytes]
  by_cases hfits : index * scalar.size + scalar.size ≤ view.length
  · have hlength : (view.bytes.slice (index * scalar.size) scalar.size).length = scalar.size :=
      Bytes.length_slice (by rw [h.length_bytes]; exact hfits)
    have helement : (view.bytes.slice (index * scalar.size) scalar.size).overwrite 0
        (scalar.toBytes number) = scalar.toBytes number :=
      Bytes.overwrite_all (by rw [scalar.length_toBytes, hlength])
    rw [if_pos hfits, seen_writeAt h number hfits, Scalar.auditedWrite]
    refine ⟨?_, Scalar.met_demands (Nat.le_of_eq hlength.symm)⟩
    simp only [helement]
  · rw [if_neg hfits, seen_writeAt_of_not_fits number hfits]
    exact inRange_refused _

end FieldView

/-- There is a view of a field exactly if the whole field lies in the value, and it is of just the
bytes of the field. A number is put at its front or into an element exactly if it lies in the view
there, and is read back from there while all else stays. Whatever is taken of memory for a view,
a read or a write is there. -/
theorem Registry.views_read_back (registry : Registry) (value : Bytes) (name : String)
    (type : TypeRecord) :
    InRange (registry.auditedView? value name type) (registry.view? value name type) ∧
    ∀ view, (registry.view? value name type = some view ↔ registry.IsView value name type view) ∧
      (registry.view? value name type = some view → ∀ scalar number,
        view.PutAt scalar 0 number (·.read scalar) (view.write scalar number) ∧
        InRange (view.auditedRead scalar) (view.read scalar) ∧
        InRange (view.auditedWrite scalar number) (FieldView.seen (view.write scalar number)) ∧
        ∀ index,
          view.PutAt scalar (index * scalar.size) number (·.readElement scalar index)
            (view.writeElement scalar index number) ∧
          InRange (view.auditedReadElement scalar index) (view.readElement scalar index) ∧
          InRange (view.auditedWriteElement scalar index number)
            (FieldView.seen (view.writeElement scalar index number))) := by
  refine ⟨registry.inRange_view value name type, fun view => ⟨view?_eq_some_iff, ?_⟩⟩
  intro hview scalar number
  have hinside := (view?_eq_some_iff.mp hview).inside
  refine ⟨FieldView.putAt_writeAt hinside scalar 0 number, FieldView.inRange_read hinside scalar,
    FieldView.inRange_write hinside scalar number, ?_⟩
  intro index
  exact ⟨FieldView.putAt_writeAt hinside scalar (index * scalar.size) number,
    FieldView.inRange_readElement hinside scalar index,
    FieldView.inRange_writeElement hinside scalar index number⟩

end TypeAtlas
