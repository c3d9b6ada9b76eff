import TypeAtlas.Schema.Basic

/-!
# Ids of a schema's types

The id of a name is the position of the last type that carries it, plus one. A name has an id
exactly when some type carries it, and exactly then a type is found under it.
-/

namespace TypeAtlas.Schema

/-- The last of the types that carry a name stands at a position. -/
def LastAt (types : List TypeDef) (name : String) (position : Nat) : Prop :=
  (types[position]?).map (·.name) = some name ∧
    ∀ later, position < later → (types[later]?).map (·.name) ≠ some name

theorem lastAt_cons {ty : TypeDef} {rest : List TypeDef} {name : String} {position : Nat} :
    LastAt (ty :: rest) name (position + 1) ↔ LastAt rest name position := by
  constructor
  · intro h
    refine ⟨by simpa using h.1, ?_⟩
    intro later hlater
    simpa using h.2 (later + 1) (Nat.succ_lt_succ hlater)
  · intro h
    refine ⟨by simpa using h.1, ?_⟩
    intro later hlater
    cases later with
    | zero => omega
    | succ later => simpa using h.2 later (Nat.lt_of_succ_lt_succ hlater)

theorem lastIdFrom_eq_none_iff {name : String} {start : Nat} {types : List TypeDef} :
    lastIdFrom name start types = none ↔ ∀ ty ∈ types, ty.name ≠ name := by
  induction types generalizing start with
  | nil => simp [lastIdFrom]
  | cons ty rest ih =>
      by_cases hname : ty.name = name
      · simp [lastIdFrom, hname]
      · simp [lastIdFrom, hname, ih]

theorem lastIdFrom_eq_some_iff {name : String} {start id : Nat} {types : List TypeDef} :
    lastIdFrom name start types = some id ↔
      ∃ position, LastAt types name position ∧ id = start + position + 1 := by
  induction types generalizing start with
  | nil => simp [lastIdFrom, LastAt]
  | cons ty rest ih =>
      rw [lastIdFrom, Option.or_eq_some_iff, ih, lastIdFrom_eq_none_iff]
      constructor
      · intro h
        rcases h with ⟨position, hlast, rfl⟩ | ⟨hnone, hhere⟩
        · exact ⟨position + 1, lastAt_cons.mpr hlast, by omega⟩
        · by_cases hname : ty.name = name
          · rw [if_pos hname] at hhere
            cases hhere
            refine ⟨0, ⟨by simpa using hname, ?_⟩, rfl⟩
            intro later hlater hthere
            obtain ⟨other, hother, heq⟩ := Option.map_eq_some_iff.mp hthere
            cases later with
            | zero => omega
            | succ later => exact hnone other (List.mem_of_getElem? hother) heq
          · simp [hname] at hhere
      · intro h
        obtain ⟨position, hlast, rfl⟩ := h
        cases position with
        | zero =>
            right
            have hname : ty.name = name := by simpa using hlast.1
            refine ⟨?_, by simp [hname]⟩
            intro other hmem heq
            obtain ⟨later, hlater⟩ := List.getElem?_of_mem hmem
            exact hlast.2 (later + 1) (Nat.succ_pos later) (by simp [hlater, heq])
        | succ position => exact .inl ⟨position, lastAt_cons.mp hlast, by omega⟩

variable (schema : Schema) (name : String)

theorem id?_eq_some_iff {id : Nat} :
    schema.id? name = some id ↔ ∃ position, LastAt schema.types name position ∧ id = position + 1 := by
  rw [id?, lastIdFrom_eq_some_iff]
  simp only [Nat.zero_add]

theorem id?_eq_none_iff : schema.id? name = none ↔ ∀ ty ∈ schema.types, ty.name ≠ name :=
  lastIdFrom_eq_none_iff

theorem id?_le {id : Nat} (h : schema.id? name = some id) : id ≤ schema.types.length := by
  obtain ⟨position, hlast, rfl⟩ := (schema.id?_eq_some_iff name).mp h
  obtain ⟨ty, hty, -⟩ := Option.map_eq_some_iff.mp hlast.1
  exact (List.getElem?_eq_some_iff.mp hty).1

/-! ## Look-up -/

theorem get?_isSome_iff : (schema.get? name).isSome ↔ ∃ ty ∈ schema.types, ty.name = name := by
  simp [get?]

theorem id?_isSome_iff : (schema.id? name).isSome ↔ ∃ ty ∈ schema.types, ty.name = name := by
  rw [← Option.not_isNone, Bool.not_eq_true', ← Bool.not_eq_true, Option.isNone_iff_eq_none,
    id?_eq_none_iff]
  simp

theorem mem_names : name ∈ schema.names ↔ ∃ ty ∈ schema.types, ty.name = name := by
  have hfold : ∀ given seen : List String,
      name ∈ given.foldl (fun seen name => if name ∈ seen then seen else seen ++ [name]) seen ↔
        name ∈ seen ∨ name ∈ given := by
    intro given
    induction given with
    | nil => simp
    | cons first rest ih =>
        intro seen
        rw [List.foldl_cons, ih]
        by_cases hseen : first ∈ seen
        · by_cases heq : name = first
          · simp [heq, hseen]
          · simp [heq, hseen]
        · simp [hseen, or_assoc]
  rw [names, hfold]
  simp

/-- The ids listed are those that the names have. -/
theorem lookup_ids : schema.ids.lookup name = schema.id? name := by
  have hlist : ∀ names : List String,
      (names.filterMap fun name => (schema.id? name).map fun id => (name, id)).lookup name =
        if name ∈ names then schema.id? name else none := by
    intro names
    induction names with
    | nil => simp
    | cons first rest ih =>
        rw [List.filterMap_cons]
        by_cases heq : name = first
        · subst heq
          cases hid : schema.id? name with
          | none => simp [ih, hid]
          | some id => simp
        · have hne : (name == first) = false := by simpa using heq
          cases hid : schema.id? first with
          | none => simp [ih, heq]
          | some id => simp [List.lookup_cons, ih, heq, hne]
  rw [ids, hlist]
  split
  · rfl
  · next hnew =>
      rw [mem_names] at hnew
      symm
      rw [id?_eq_none_iff]
      intro ty hmem heq
      exact hnew ⟨ty, hmem, heq⟩

end TypeAtlas.Schema
