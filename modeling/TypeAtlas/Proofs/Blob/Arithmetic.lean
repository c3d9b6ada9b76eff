import TypeAtlas.Blob.Audit
import TypeAtlas.Proofs.Blob.Encoding
import TypeAtlas.Proofs.Blob.Extent

/-!
# The arithmetic of an encoding

An expression of sums and products of machine words is exact when each of its exact results fits
a word. For the plan of a table this comes down to the length of the whole table, up to the
record of a field, which is counted also where no field is kept. The words that are written
afterwards are counted for a width of four or eight bytes only, and are all within bounds there.
-/

namespace TypeAtlas

namespace Audited

/-! ## Steps -/

theorem outcome_bind (step : Audited α) (next : α → Audited β) :
    (step >>= next).outcome = step.outcome >>= fun value => (next value).outcome := by
  obtain ⟨demands, outcome⟩ := step
  cases outcome <;> rfl

@[simp] theorem outcome_plain (step : Except LoadError α) : (plain step).outcome = step := rfl

@[simp] theorem outcome_pure (value : α) : (pure value : Audited α).outcome = .ok value := rfl

theorem exact_bind_iff {step : Audited α} {next : α → Audited β} :
    (step >>= next).Exact ↔
      step.Exact ∧ ∀ value, step.outcome = .ok value → (next value).Exact := by
  obtain ⟨demands, outcome⟩ := step
  cases outcome with
  | error fault => simp [Exact, bind]
  | ok value => simp [Exact, bind, or_imp, forall_and]

theorem exact_plain (step : Except LoadError α) : (plain step).Exact := by
  simp [Exact, plain]

theorem exact_pure (value : α) : (pure value : Audited α).Exact := by
  simp [Exact, pure]

theorem exact_demand_number {number : Nat} :
    (demand [.number number]).Exact ↔ number < UInt64.size := by
  simp [Exact, demand]

/-! ## Expressions -/

/-- The word that an expression gives is the one of its exact result, and it is formed exactly
under a condition that puts this result below the words that there are. -/
structure Evaluates (step : Audited UInt64) (exact : Prop) (number : Nat) : Prop where
  outcome_eq : step.outcome = .ok (UInt64.ofNat number)
  exact_iff : step.Exact ↔ exact
  lt : exact → number < UInt64.size

namespace Evaluates

variable {left right step : Audited UInt64} {exactLeft exactRight exact : Prop} {m n number : Nat}

theorem word (value : UInt64) : (pure value : Audited UInt64).Evaluates True value.toNat where
  outcome_eq := by rw [outcome_pure, UInt64.ofNat_toNat]
  exact_iff := iff_of_true (exact_pure value) trivial
  lt _ := value.toNat_lt

theorem congr {other : Prop} {total : Nat} (h : step.Evaluates exact number)
    (hexact : exact ↔ other) (hnumber : number = total) : step.Evaluates other total := by
  cases hexact.eq
  cases hnumber
  exact h

theorem combine {f : Nat → Nat → Nat} {bounded : UInt64 → UInt64 → UInt64}
    (hbounded : ∀ m n, bounded (UInt64.ofNat m) (UInt64.ofNat n) = UInt64.ofNat (f m n))
    (hleft : left.Evaluates exactLeft m) (hright : right.Evaluates exactRight n) :
    (combine f bounded left right).Evaluates
      (exactLeft ∧ exactRight ∧ f m n < UInt64.size) (f m n) where
  outcome_eq := by
    simp only [Audited.combine, outcome_bind, hleft.outcome_eq, hright.outcome_eq]
    exact congrArg Except.ok (hbounded m n)
  exact_iff := by
    have hword : exactLeft → exactRight →
        ((f (UInt64.ofNat m).toNat (UInt64.ofNat n).toNat < UInt64.size) ↔
          f m n < UInt64.size) := by
      intro hl hr
      rw [UInt64.toNat_ofNat_of_lt' (hleft.lt hl), UInt64.toNat_ofNat_of_lt' (hright.lt hr)]
    simp only [Audited.combine, exact_bind_iff, hleft.outcome_eq, hright.outcome_eq,
      hleft.exact_iff, hright.exact_iff, exact_demand_number, exact_pure, Except.ok.injEq,
      forall_eq', implies_true, and_true]
    exact and_congr_right fun hl => and_congr_right fun hr => hword hl hr
  lt h := h.2.2

theorem plus (hleft : left.Evaluates exactLeft m) (hright : right.Evaluates exactRight n) :
    (plus left right).Evaluates (exactLeft ∧ exactRight ∧ m + n < UInt64.size) (m + n) :=
  combine (fun m n => (UInt64.ofNat_add m n).symm) hleft hright

theorem times (hleft : left.Evaluates exactLeft m) (hright : right.Evaluates exactRight n) :
    (times left right).Evaluates (exactLeft ∧ exactRight ∧ m * n < UInt64.size) (m * n) :=
  combine (fun m n => (UInt64.ofNat_mul m n).symm) hleft hright

end Evaluates

/-! ## Planning -/

/-- Members are counted in machine words, and enumerators two words at a time. -/
structure CountsFit (schema : Schema) (ty : TypeDef) : Prop where
  fields : (ty.fieldsWithin schema).length < UInt64.size
  enumerators : ty.enumerators.length * 2 < UInt64.size

variable {schema : Schema}

theorem evaluates_plannedEntry (width : UInt64) {ty : TypeDef} (hcounts : CountsFit schema ty) :
    (plannedEntry schema width ty).Evaluates
      (schema.entryLength width.toNat ty < UInt64.size ∧
        (ty.kind.hasFields = true → 4 * width.toNat + 1 + 4 < UInt64.size))
      (schema.entryLength width.toNat ty) := by
  obtain ⟨hfields, henumerators⟩ := hcounts
  have h1 : (1 : UInt64).toNat = 1 := rfl
  have h2 : (2 : UInt64).toNat = 2 := rfl
  have h3 : (3 : UInt64).toNat = 3 := rfl
  have h4 : (4 : UInt64).toNat = 4 := rfl
  have hhead := ((Evaluates.word 3).times (.word width)).plus (.word 1)
  have hfront := hhead.plus (.word width)
  unfold plannedEntry Schema.entryLength TypeKind.hasFields
  rw [Schema.length_keptFields]
  cases ty.kind with
  | base =>
      refine hhead.congr ?_ (by simp only [h1, h3, Nat.add_zero])
      simp only [h1, h3, Bool.false_eq_true, false_imp_iff, true_and, and_true]
      omega
  | struct | union =>
      have hone := (((Evaluates.word 4).times (.word width)).plus (.word 1)).plus (.word 4)
      have hall := hfront.plus
        ((Evaluates.word (UInt64.ofNat (ty.fieldsWithin schema).length)).times hone)
      simp only [h1, h3, h4, UInt64.toNat_ofNat_of_lt' hfields] at hall
      generalize (ty.fieldsWithin schema).length * (4 * width.toNat + 1 + 4) = fields at hall ⊢
      refine hall.congr ?_ (Nat.add_assoc ..)
      simp only [true_imp_iff, true_and]
      omega
  | enum =>
      have hcount : ty.enumerators.length < UInt64.size := by omega
      have hall := hfront.plus (((Evaluates.word (UInt64.ofNat ty.enumerators.length)).times
        (.word 2)).times (.word width))
      simp only [h1, h2, h3, UInt64.toNat_ofNat_of_lt' hcount, Nat.mul_assoc] at hall
      generalize ty.enumerators.length * (2 * width.toNat) = enumerators at hall ⊢
      refine hall.congr ?_ (Nat.add_assoc ..)
      simp only [Bool.false_eq_true, false_imp_iff, true_and, and_true]
      omega

theorem evaluates_total (width : UInt64) {types : List TypeDef}
    (hcounts : ∀ ty ∈ types, CountsFit schema ty) {total : Audited UInt64} {exact : Prop}
    {m : Nat} (htotal : total.Evaluates exact m) :
    (types.foldl (fun total ty => plus total (plannedEntry schema width ty)) total).Evaluates
      (exact ∧
        (∀ ty ∈ types, ty.kind.hasFields = true → 4 * width.toNat + 1 + 4 < UInt64.size) ∧
        m + (types.map (schema.entryLength width.toNat)).foldr (· + ·) 0 < UInt64.size)
      (m + (types.map (schema.entryLength width.toNat)).foldr (· + ·) 0) := by
  induction types generalizing total exact m with
  | nil =>
      refine htotal.congr ⟨fun h => ⟨h, by simp, htotal.lt h⟩, fun h => h.1⟩ rfl
  | cons ty rest ih =>
      rw [List.forall_mem_cons] at hcounts
      have hnext := ih hcounts.2 (htotal.plus (evaluates_plannedEntry width hcounts.1))
      rw [List.map_cons, List.foldr_cons, List.forall_mem_cons]
      refine hnext.congr ?_ (Nat.add_assoc ..)
      constructor
      · intro h
        obtain ⟨⟨hexact, ⟨-, hfirst⟩, -⟩, hrest, hlt⟩ := h
        exact ⟨hexact, ⟨hfirst, hrest⟩, by omega⟩
      · intro h
        obtain ⟨hexact, ⟨hfirst, hrest⟩, hlt⟩ := h
        exact ⟨⟨hexact, ⟨by omega, hfirst⟩, by omega⟩, hrest, by omega⟩

/-- The plan is exact when the whole table and the record of a field are within bounds. -/
theorem evaluates_plannedLength (width : UInt64)
    (hcounts : ∀ ty ∈ schema.types, CountsFit schema ty) :
    (plannedLength schema width).Evaluates (schema.PlanFits width.toNat)
      (schema.tableLength width.toNat) := by
  have h0 : (0 : UInt64).toNat = 0 := rfl
  have hall := (Evaluates.word width).plus
    (evaluates_total width hcounts (Evaluates.word 0))
  simp only [h0, Nat.zero_add] at hall
  refine hall.congr ?_ rfl
  unfold Schema.PlanFits Schema.tableLength
  constructor
  · intro h
    exact ⟨h.2.2, h.2.1.2.1⟩
  · intro h
    exact ⟨trivial, ⟨trivial, h.2, by omega⟩, h.1⟩

theorem outcome_plus {left right : Audited UInt64} {m n : UInt64} (hleft : left.outcome = .ok m)
    (hright : right.outcome = .ok n) : (plus left right).outcome = .ok (m + n) := by
  simp only [plus, combine, outcome_bind, hleft, hright]
  rfl

theorem outcome_plannedEntry (schema : Schema) (width : UInt64) (ty : TypeDef) :
    (plannedEntry schema width ty).outcome = .ok (schema.plannedEntry width ty) := by
  unfold plannedEntry Schema.plannedEntry
  cases ty.kind <;> rfl

theorem outcome_total (schema : Schema) (width : UInt64) (types : List TypeDef)
    {total : Audited UInt64} {sum : UInt64} (htotal : total.outcome = .ok sum) :
    (types.foldl (fun total ty => plus total (plannedEntry schema width ty)) total).outcome =
      .ok ((types.map (schema.plannedEntry width)).foldl (· + ·) sum) := by
  induction types generalizing total sum with
  | nil => exact htotal
  | cons ty rest ih =>
      exact ih (outcome_plus htotal (outcome_plannedEntry schema width ty))

theorem outcome_plannedLength (schema : Schema) (width : UInt64) :
    (plannedLength schema width).outcome = .ok (schema.plannedLength width) :=
  outcome_plus (outcome_pure width) (outcome_total schema width schema.types (outcome_pure 0))

/-! ## Writing -/

variable {target : Target} {tableLength : UInt64} {pool : StringPool}

theorem outcome_emitItem (item : Item) :
    (emitItem target tableLength pool item).outcome =
      Registry.reading (target.emitItem tableLength pool item) := by
  cases item with
  | name text =>
      simp only [emitItem, Target.emitItem, outcome_bind, Registry.reading_bind, outcome_plain]
      rfl
  | _ => rfl

theorem outcome_emit (items : List Item) :
    (emit target tableLength pool items).outcome =
      Registry.reading (target.emit tableLength pool items) := by
  induction items generalizing pool with
  | nil => rfl
  | cons item rest ih =>
      simp only [emit, Target.emit, outcome_bind, Registry.reading_bind, outcome_emitItem, ih]
      rfl

theorem emit_append (items more : List Item) :
    target.emit tableLength pool (items ++ more) = (do
      let (front, pool) ← target.emit tableLength pool items
      let (back, pool) ← target.emit tableLength pool more
      return (front ++ back, pool)) := by
  induction items generalizing pool with
  | nil =>
      rw [List.nil_append]
      cases hmore : target.emit tableLength pool more <;>
        simp [Target.emit, hmore, bind, Except.bind, pure, Except.pure]
  | cons item rest ih =>
      simp only [List.cons_append, Target.emit, ih, bind_assoc, pure_bind, List.append_assoc]

theorem outcome_emitEntries (schema : Schema) (types : List TypeDef) (position : Nat) :
    (emitEntries schema target tableLength pool position types).outcome =
      Registry.reading
        (target.emit tableLength pool (schema.entriesFrom (position + 1) types)) := by
  induction types generalizing pool position with
  | nil => rfl
  | cons ty rest ih =>
      simp only [emitEntries, Schema.entriesFrom, emit_append, outcome_bind, Registry.reading_bind,
        outcome_emit, ih]
      rfl

theorem outcome_emitTable (schema : Schema) :
    (emitTable schema target tableLength).outcome =
      Registry.reading (target.emit tableLength .empty schema.items) := by
  have hitems : schema.items =
      [.word (UInt64.ofNat schema.size)] ++ schema.entriesFrom 1 schema.types := rfl
  simp only [emitTable, outcome_bind, outcome_emit, outcome_emitEntries, Nat.zero_add, hitems,
    emit_append, Registry.reading_bind]
  rfl

/-- The audited encoding is the encoding. -/
theorem outcome_encode (schema : Schema) (options : WriterOptions) :
    (encode schema options).outcome = Registry.reading (schema.encode options) := by
  simp only [encode, outcome_bind, outcome_plannedLength, outcome_plain, outcome_emitTable]
  simp only [Schema.encode, Schema.encodeParts, Registry.reading_bind, Registry.reading_pure,
    bind_assoc, pure_bind]
  cases Target.ofOptions options <;> rfl

/-! ## Words that are written -/

theorem exact_plus {left right : UInt64} (h : left.toNat + right.toNat < UInt64.size) :
    (plus (pure left) (pure right)).Exact :=
  ((Evaluates.word left).plus (.word right)).exact_iff.mpr ⟨trivial, trivial, h⟩

theorem exact_emitItem {used : List String} {item : Item} (h : pool.Holds used)
    (hroom : tableLength.toNat +
      (Schema.pooled (used ++ item.name?.toList).eraseDups).length < UInt64.size) :
    (emitItem target tableLength pool item).Exact := by
  cases item with
  | name text =>
      refine exact_bind_iff.mpr ⟨exact_plain _, fun found hfound => ?_⟩
      obtain ⟨offset, next⟩ := found
      have hplace := (h.intern (Registry.reading_eq_ok_iff.mp hfound)).2
      have hle := Schema.placeIn_le (used ++ [text]).eraseDups text
      rw [← hplace] at hle
      rw [Item.name?, Option.toList_some] at hroom
      have hword : tableLength.toNat + (UInt64.ofNat offset).toNat < UInt64.size := by
        rw [UInt64.toNat_ofNat_of_lt' (by omega)]
        omega
      exact exact_bind_iff.mpr ⟨exact_plus hword, fun _ _ =>
        exact_bind_iff.mpr ⟨exact_plain _, fun _ _ => exact_pure _⟩⟩
  | _ => exact exact_plain _

theorem exact_emit {used : List String} {items : List Item} (h : pool.Holds used)
    (hroom : tableLength.toNat +
      (Schema.pooled (used ++ items.filterMap Item.name?).eraseDups).length < UInt64.size) :
    (emit target tableLength pool items).Exact := by
  induction items generalizing pool used with
  | nil => exact exact_pure _
  | cons item rest ih =>
      rw [Item.append_names_cons] at hroom
      have hfirst := Schema.length_pooled_le (used ++ item.name?.toList) (rest.filterMap Item.name?)
      refine exact_bind_iff.mpr ⟨exact_emitItem h (by omega), fun found hfound => ?_⟩
      obtain ⟨bytes, next⟩ := found
      rw [outcome_emitItem] at hfound
      have hnext := (Target.emitItem_eq_ok h (Registry.reading_eq_ok_iff.mp hfound)).1
      exact exact_bind_iff.mpr ⟨ih hnext hroom, fun _ _ => exact_pure _⟩

theorem exact_emitEntries (schema : Schema) {used : List String} {types : List TypeDef}
    {position : Nat} (h : pool.Holds used) (hids : position + types.length < UInt64.size)
    (hroom : tableLength.toNat + (Schema.pooled
      (used ++ (schema.entriesFrom (position + 1) types).filterMap Item.name?).eraseDups).length <
        UInt64.size) :
    (emitEntries schema target tableLength pool position types).Exact := by
  induction types generalizing pool used position with
  | nil => exact exact_pure _
  | cons ty rest ih =>
      rw [List.length_cons] at hids
      rw [Schema.entriesFrom, List.filterMap_append, ← List.append_assoc] at hroom
      have hfirst := Schema.length_pooled_le
        (used ++ (schema.entryItems ty (position + 1)).filterMap Item.name?)
        ((schema.entriesFrom (position + 1 + 1) rest).filterMap Item.name?)
      refine exact_bind_iff.mpr ⟨exact_demand_number.mpr (by omega), fun _ _ => ?_⟩
      refine exact_bind_iff.mpr ⟨exact_emit h (by omega), fun found hfound => ?_⟩
      obtain ⟨bytes, next⟩ := found
      rw [outcome_emit] at hfound
      have hnext := (Target.emit_eq_ok h (Registry.reading_eq_ok_iff.mp hfound)).1
      refine exact_bind_iff.mpr ⟨ih hnext (by omega) hroom, fun _ _ => exact_pure _⟩

theorem exact_emitTable (schema : Schema) (hids : schema.types.length < UInt64.size)
    (hroom : tableLength.toNat + schema.poolBytes.length < UInt64.size) :
    (emitTable schema target tableLength).Exact := by
  refine exact_bind_iff.mpr ⟨exact_emit StringPool.holds_empty ?_, fun found hfound => ?_⟩
  · show tableLength.toNat + 0 < UInt64.size
    omega
  obtain ⟨count, pool⟩ := found
  rw [outcome_emit] at hfound
  have hholds := (Target.emit_eq_ok StringPool.holds_empty
    (Registry.reading_eq_ok_iff.mp hfound)).1
  have hnames : [] ++ [Item.word (UInt64.ofNat schema.size)].filterMap Item.name? ++
      (schema.entriesFrom (0 + 1) schema.types).filterMap Item.name? = schema.writtenNames := by
    rw [← Schema.filterMap_name?_items]
    rfl
  refine exact_bind_iff.mpr ⟨exact_emitEntries schema hholds (by omega) ?_, fun _ _ =>
    exact_pure _⟩
  rw [hnames]
  exact hroom

end Audited

namespace Schema

theorem countsFit (schema : Schema) (hparts : schema.partCount < 2 ^ 48) {ty : TypeDef}
    (hmem : ty ∈ schema.types) : Audited.CountsFit schema ty := by
  have hle : ty.fields.length + ty.enumerators.length ≤
      (schema.types.map fun ty => ty.fields.length + ty.enumerators.length).foldr (· + ·) 0 :=
    List.le_sum_of_mem (List.mem_map_of_mem hmem)
  have hwithin := schema.length_fieldsWithin_le_fields ty
  have hsize : UInt64.size = 18446744073709551616 := rfl
  unfold partCount at hparts
  exact ⟨by omega, by omega⟩

theorem toNat_plannedLength {schema : Schema} {width : UInt64}
    (h : schema.PlanFits width.toNat) :
    (schema.plannedLength width).toNat = schema.tableLength width.toNat := by
  have hplan := schema.plannedLength_eq width.toNat
  rw [UInt64.ofNat_toNat] at hplan
  rw [hplan, UInt64.toNat_ofNat_of_lt' h.1]

theorem encode_of_width_ne (schema : Schema) {options : WriterOptions}
    (hfour : options.pointerWidth ≠ 4) (height : options.pointerWidth ≠ 8) :
    schema.encode options = .error (.badHeader (.unsupportedWidth options.pointerWidth)) := by
  have htarget : Target.ofOptions options =
      .error (.badHeader (.unsupportedWidth options.pointerWidth)) := by
    rw [Target.ofOptions, if_neg hfour, if_neg height]
  rw [encode, htarget]
  rfl

end Schema

namespace Audited

/-- For the width of a target all names come to stand within bounds. -/
theorem room_of_target {schema : Schema} {options : WriterOptions}
    (hparts : schema.partCount < 2 ^ 48) (htext : schema.textLength < 2 ^ 48)
    (htarget : Target.ofOptions options = .ok target) :
    (schema.plannedLength options.pointerWidth).toNat + schema.poolBytes.length <
      UInt64.size := by
  have hwidth : options.pointerWidth.toNat ≤ 8 := by
    rw [(Target.ofOptions_eq_ok_iff.mp htarget).1]
    cases target.width <;> decide
  have hlength := Schema.toNat_plannedLength (Schema.planFits_of_le hparts
    (Nat.le_trans hwidth (by decide)))
  have htable := schema.tableLength_le options.pointerWidth.toNat
  have hmul : (4 * options.pointerWidth.toNat + 5) * schema.partCount ≤ 37 * schema.partCount :=
    Nat.mul_le_mul_right _ (by omega)
  have hpool := schema.length_poolBytes_le
  have hsize : UInt64.size = 18446744073709551616 := rfl
  omega

/-- An encoding is exact when its plan is. -/
theorem exact_encode_iff {schema : Schema} (options : WriterOptions)
    (hparts : schema.partCount < 2 ^ 48) (htext : schema.textLength < 2 ^ 48) :
    (encode schema options).Exact ↔ schema.PlanFits options.pointerWidth.toNat := by
  have hplan := evaluates_plannedLength options.pointerWidth fun ty hmem =>
    schema.countsFit hparts hmem
  have htypes := schema.length_types_le_parts
  have hsize : UInt64.size = 18446744073709551616 := rfl
  have hids : (demand ((List.range schema.size).map fun position =>
      .number (position + 1))).Exact := by
    intro number hmem
    obtain ⟨position, hposition, heq⟩ := List.mem_map.mp hmem
    cases heq
    have hlt : position < schema.types.length := List.mem_range.mp hposition
    omega
  constructor
  · intro h
    have hrest := (exact_bind_iff.mp h).2 () rfl
    exact hplan.exact_iff.mp (exact_bind_iff.mp hrest).1
  · intro h
    refine exact_bind_iff.mpr ⟨hids, fun _ _ => ?_⟩
    refine exact_bind_iff.mpr ⟨hplan.exact_iff.mpr h, fun tableLength hlength => ?_⟩
    rw [outcome_plannedLength] at hlength
    cases hlength
    refine exact_bind_iff.mpr ⟨exact_plain _, fun target htarget => ?_⟩
    have hroom := room_of_target hparts htext (Registry.reading_eq_ok_iff.mp htarget)
    exact exact_bind_iff.mpr ⟨exact_emitTable schema (by omega) hroom, fun _ _ => exact_pure _⟩

end Audited

/-- The sums and products of an encoding are exact when the plan for its width is: for words of
four and of eight bytes, and wherever the planned lengths are within bounds. Every other width is
refused in the end, whatever has been planned for it. -/
theorem Schema.encode_exact_iff {schema : Schema} (options : WriterOptions)
    (hparts : schema.partCount < 2 ^ 48) (htext : schema.textLength < 2 ^ 48) :
    (Audited.encode schema options).outcome = Registry.reading (schema.encode options) ∧
      ((Audited.encode schema options).Exact ↔ schema.PlanFits options.pointerWidth.toNat) ∧
      (options.pointerWidth.toNat ≤ 8192 → schema.PlanFits options.pointerWidth.toNat) ∧
      (options.pointerWidth ≠ 4 → options.pointerWidth ≠ 8 → schema.encode options =
        .error (.badHeader (.unsupportedWidth options.pointerWidth))) :=
  ⟨Audited.outcome_encode schema options, Audited.exact_encode_iff options hparts htext,
    Schema.planFits_of_le hparts, schema.encode_of_width_ne⟩

def Schema.lone : Schema := ⟨none, [⟨"a", .base, 1, [], [], []⟩]⟩

/-- With words of eight bytes the schema of one type is encoded exactly. -/
theorem Schema.encode_exact_iff_lone :
    lone.partCount < 2 ^ 48 ∧ lone.textLength < 2 ^ 48 ∧
      (Audited.encode lone .host).Exact := by
  have hparts : lone.partCount < 2 ^ 48 := by decide
  have htext : lone.textLength < 2 ^ 48 := by decide +kernel
  obtain ⟨-, hexact, hfits, -⟩ := encode_exact_iff .host hparts htext
  exact ⟨hparts, htext, hexact.mpr (hfits (by decide))⟩

/-- Three times a width of `2 ^ 63` is counted before the width is refused. -/
theorem Schema.not_exact_lone :
    lone.partCount < 2 ^ 48 ∧ lone.textLength < 2 ^ 48 ∧
      ¬ (Audited.encode lone ⟨9223372036854775808, .little, false⟩).Exact := by
  refine ⟨by decide, by decide +kernel, fun h => ?_⟩
  have hmem : Demand.number 27670116110564327424 ∈
      (Audited.encode lone ⟨9223372036854775808, .little, false⟩).demands := by
    decide +kernel
  exact absurd (h _ hmem) (by decide)

end TypeAtlas
