import TypeAtlas.Proofs.Keyed
import TypeAtlas.Proofs.Schema.Ids
import TypeAtlas.Schema.Merge

/-!
# What a merge holds

A merge keeps its types and the places of their names apart. After anything that was added
the two agree: every name has one type, the last one given for it, at the place at which the
name first came. So an id, once given, is never given to another name.
-/

namespace TypeAtlas

namespace Schema

/-! ## Ids of distinct names -/

theorem names_of_nodup (schema : Schema) (h : (schema.types.map (·.name)).Nodup) :
    schema.names = schema.types.map (·.name) := by
  have hfold : ∀ given seen : List String, (seen ++ given).Nodup →
      given.foldl (fun seen name => if name ∈ seen then seen else seen ++ [name]) seen =
        seen ++ given := by
    intro given
    induction given with
    | nil => simp
    | cons first rest ih =>
      intro seen hnodup
      have hnew : first ∉ seen := by
        intro hmem
        exact (List.nodup_append.mp hnodup).2.2 first hmem first List.mem_cons_self rfl
      rw [List.foldl_cons, if_neg hnew, ih _ (by simpa using hnodup), List.append_assoc]
      rfl
  exact hfold _ [] h

theorem lastAt_of_nodup {types : List TypeDef} (h : (types.map (·.name)).Nodup) {name : String}
    {position : Nat} (hposition : (types.map (·.name))[position]? = some name) :
    LastAt types name position := by
  refine ⟨by rw [← List.getElem?_map, hposition], ?_⟩
  intro later hlater hsame
  have hlt := (List.getElem?_eq_some_iff.mp hposition).1
  rw [← List.getElem?_map, ← hposition] at hsame
  have heq := (List.getElem?_inj hlt h).mp hsame.symm
  omega

theorem id?_of_nodup (schema : Schema) (h : (schema.types.map (·.name)).Nodup) {name : String}
    {position : Nat} (hposition : (schema.types.map (·.name))[position]? = some name) :
    schema.id? name = some (position + 1) :=
  (schema.id?_eq_some_iff name).mpr ⟨position, lastAt_of_nodup h hposition, rfl⟩

/-- Where names are distinct, they are numbered as they stand. -/
theorem ids_of_nodup (schema : Schema) (h : (schema.types.map (·.name)).Nodup) :
    schema.ids = schema.types.zipIdx.map fun numbered => (numbered.1.name, numbered.2 + 1) := by
  have hnames : schema.types.map (·.name) = schema.types.zipIdx.map (·.1.name) := by
    calc schema.types.map (·.name)
        = (schema.types.zipIdx.map Prod.fst).map (·.name) := by rw [List.zipIdx_map_fst]
      _ = schema.types.zipIdx.map (·.1.name) := List.map_map
  have hnumber : ∀ numbered ∈ schema.types.zipIdx,
      (schema.id? numbered.1.name).map (fun id => (numbered.1.name, id)) =
        some (numbered.1.name, numbered.2 + 1) := by
    rintro ⟨ty, position⟩ hmem
    have hty := List.mk_mem_zipIdx_iff_getElem?.mp hmem
    have hposition : (schema.types.map (·.name))[position]? = some ty.name := by
      rw [List.getElem?_map, hty, Option.map_some]
    rw [schema.id?_of_nodup h hposition, Option.map_some]
  rw [ids, schema.names_of_nodup h, hnames, List.filterMap_map]
  exact (List.filterMap_congr hnumber).trans (congrFun List.filterMap_eq_map' _)

end Schema

namespace Merge

/-! ## Adding types -/

def Indexed (merge : Merge) : Prop :=
  ∀ name, merge.positions.lookup name = (merge.types.map (·.name)).idxOf? name

variable {merge : Merge}

theorem Indexed.types_addType (h : merge.Indexed) (ty : TypeDef) :
    (merge.addType ty).types = Keyed.place TypeDef.name ty merge.types := by
  have hname := h ty.name
  unfold Merge.addType
  cases hlookup : merge.positions.lookup ty.name with
  | some position =>
    rw [hlookup] at hname
    exact (Keyed.place_of_idxOf? hname.symm).symm
  | none =>
    rw [hlookup] at hname
    exact (Keyed.place_of_not_mem (List.idxOf?_eq_none_iff.mp hname.symm)).symm

theorem Indexed.addType (h : merge.Indexed) (ty : TypeDef) : (merge.addType ty).Indexed := by
  intro name
  have hname := h ty.name
  rw [h.types_addType, Keyed.map_key_place]
  unfold Merge.addType
  cases hlookup : merge.positions.lookup ty.name with
  | some position =>
    rw [hlookup] at hname
    have hmem : ty.name ∈ merge.types.map (·.name) := by
      by_contra hnew
      rw [List.idxOf?_eq_none_iff.mpr hnew] at hname
      cases hname
    rw [if_pos hmem]
    exact h name
  | none =>
    rw [hlookup] at hname
    have hnew : ty.name ∉ merge.types.map (·.name) := List.idxOf?_eq_none_iff.mp hname.symm
    rw [if_neg hnew, Keyed.idxOf?_concat hnew, ← h name, List.length_map, List.lookup_cons]
    by_cases heq : ty.name = name
    · simp [heq]
    · have hne : (name == ty.name) = false := by simpa using Ne.symm heq
      simp [heq, hne]

/-- A merge that has been given some types, one after the other. -/
structure Holds (given : List TypeDef) (merge : Merge) : Prop where
  indexed : merge.Indexed
  types : Keyed.Tabulates TypeDef.name given merge.types

variable {given : List TypeDef}

theorem holds_empty : Holds [] empty where
  indexed _ := rfl
  types := Keyed.tabulates_nil

theorem Holds.addType (h : Holds given merge) (ty : TypeDef) :
    Holds (given ++ [ty]) (merge.addType ty) where
  indexed := h.indexed.addType ty
  types := by
    rw [h.indexed.types_addType]
    exact h.types.place ty

theorem Holds.addTypes (h : Holds given merge) (types : List TypeDef) :
    Holds (given ++ types) (types.foldl Merge.addType merge) := by
  induction types generalizing given merge with
  | nil =>
    rw [List.append_nil]
    exact h
  | cons ty rest ih =>
    have hrest := ih (h.addType ty)
    rwa [List.append_assoc, List.singleton_append] at hrest

theorem Holds.add (h : Holds given merge) (schema : Schema) :
    Holds (given ++ schema.types) (merge.add schema) := by
  have hwidth : Holds given { merge with arch := schema.arch.or merge.arch } :=
    ⟨h.indexed, h.types⟩
  exact hwidth.addTypes schema.types

/-! ## The pointer width -/

theorem arch_addType (merge : Merge) (ty : TypeDef) : (merge.addType ty).arch = merge.arch := by
  unfold addType
  split <;> rfl

theorem arch_add (merge : Merge) (schema : Schema) :
    (merge.add schema).arch = schema.arch.or merge.arch := by
  have hfold : ∀ (types : List TypeDef) (merge : Merge),
      (types.foldl addType merge).arch = merge.arch := by
    intro types
    induction types with
    | nil => exact fun _ => rfl
    | cons ty rest ih => exact fun merge => (ih _).trans (arch_addType merge ty)
  rw [add, hfold]

/-! ## Runs -/

inductive Action where
  | add (schema : Schema)
  | addType (ty : TypeDef)
  deriving DecidableEq, Repr

def Action.types : Action → List TypeDef
  | .add schema => schema.types
  | .addType ty => [ty]

def Action.arch? : Action → Option UInt64
  | .add schema => schema.arch
  | .addType _ => none

def act (merge : Merge) : Action → Merge
  | .add schema => merge.add schema
  | .addType ty => merge.addType ty

def run (merge : Merge) (actions : List Action) : Merge := actions.foldl act merge

theorem Holds.act (h : Holds given merge) (action : Action) :
    Holds (given ++ action.types) (merge.act action) := by
  cases action with
  | add schema => exact h.add schema
  | addType ty => exact h.addType ty

theorem Holds.run (h : Holds given merge) (actions : List Action) :
    Holds (given ++ actions.flatMap Action.types) (merge.run actions) := by
  induction actions generalizing given merge with
  | nil =>
    rw [List.flatMap_nil, List.append_nil]
    exact h
  | cons action rest ih =>
    rw [List.flatMap_cons, ← List.append_assoc]
    exact ih (h.act action)

theorem arch_act (merge : Merge) (action : Action) :
    (merge.act action).arch = action.arch?.or merge.arch := by
  cases action with
  | add schema => exact arch_add merge schema
  | addType ty => exact arch_addType merge ty

theorem arch_run (merge : Merge) (actions : List Action) :
    (merge.run actions).arch = ((actions.filterMap Action.arch?).getLast?).or merge.arch := by
  induction actions generalizing merge with
  | nil => rfl
  | cons action rest ih =>
    rw [run, List.foldl_cons, ← run, ih, arch_act, ← Option.or_assoc]
    congr 1
    cases harch : action.arch? with
    | none => simp [harch]
    | some width => simp [harch, List.getLast?_cons, Option.or_some]

theorem run_append (merge : Merge) (before after : List Action) :
    merge.run (before ++ after) = (merge.run before).run after := List.foldl_append

theorem holds_run (actions : List Action) :
    Holds (actions.flatMap Action.types) (empty.run actions) := by
  simpa using holds_empty.run actions

/-- Names that stand in a merge keep their places whatever else is added. -/
theorem Holds.prefix_run (h : Holds given merge) (actions : List Action) :
    merge.types.map (·.name) <+: (merge.run actions).types.map (·.name) := by
  rw [h.types.keys, (h.run actions).types.keys, List.map_append, List.eraseDups_append]
  exact List.prefix_append _ _

/-- A merge lists the names in the order in which they first came, each with its last
definition, and numbers them once and for all. -/
theorem run_lists (actions : List Action) :
    let given := actions.flatMap Action.types
    let schema := (empty.run actions).finish
    schema.types.map (·.name) = (given.map (·.name)).eraseDups ∧
    (∀ ty ∈ schema.types, ∃ before after, given = before ++ ty :: after ∧
      ∀ later ∈ after, later.name ≠ ty.name) ∧
    schema.arch = (actions.filterMap Action.arch?).getLast? ∧
    schema.ids = schema.types.zipIdx.map (fun numbered => (numbered.1.name, numbered.2 + 1)) ∧
    ∀ before after, actions = before ++ after →
      let earlier := empty.run before
      (earlier.types.map (·.name)).Nodup ∧
      ∀ position name, (earlier.types.map (·.name))[position]? = some name →
        earlier.positions.lookup name = some position ∧
        (schema.types.map (·.name))[position]? = some name ∧
        schema.ids.lookup name = some (position + 1) := by
  intro given schema
  have hholds := holds_run actions
  have hnodup := hholds.types.nodup_keys
  refine ⟨hholds.types.keys, ?_, ?_, schema.ids_of_nodup hnodup, ?_⟩
  · intro ty hmem
    exact (Keyed.last?_eq_some_iff.mp (hholds.types.last?_of_mem hmem)).2
  · exact (arch_run empty actions).trans Option.or_none
  · rintro before after rfl earlier
    have hbefore := holds_run before
    refine ⟨hbefore.types.nodup_keys, ?_⟩
    intro position name hname
    have hstays : (schema.types.map (·.name))[position]? = some name := by
      obtain ⟨more, hmore⟩ := hbefore.prefix_run after
      rw [← run_append] at hmore
      have hlt := (List.getElem?_eq_some_iff.mp hname).1
      exact hmore ▸ (List.getElem?_append_left hlt).trans hname
    refine ⟨?_, hstays, ?_⟩
    · rw [hbefore.indexed name, Keyed.idxOf?_of_nodup hbefore.types.nodup_keys hname]
    · rw [schema.lookup_ids, schema.id?_of_nodup hnodup hstays]

theorem run_map_add (merge : Merge) (schemas : List Schema) :
    merge.run (schemas.map Action.add) = merge.addAll schemas := List.foldl_map

end Merge

namespace Schema

/-- Schemas that are merged have the names of all their types in the order in which they
first came, each with its last definition. -/
theorem merged_tabulates (schemas : List Schema) :
    Keyed.Tabulates TypeDef.name (schemas.flatMap (·.types)) (merged schemas).types := by
  have hholds := Merge.holds_run (schemas.map Merge.Action.add)
  rw [Merge.run_map_add, List.flatMap_map] at hholds
  exact hholds.types

theorem arch_merged (schemas : List Schema) :
    (merged schemas).arch = (schemas.filterMap (·.arch)).getLast? := by
  have harch := Merge.arch_run .empty (schemas.map Merge.Action.add)
  rw [Merge.run_map_add, List.filterMap_map] at harch
  exact harch.trans Option.or_none

end Schema

end TypeAtlas
