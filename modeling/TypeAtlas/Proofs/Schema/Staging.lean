import TypeAtlas.Proofs.Schema.Merging

/-!
# Merging in stages

What a merge gives depends on the order in which names first come and on the definitions that
come last. A merged schema has kept just that of the schemas it was made of, so it may stand
in their place wherever they would be merged next, and may come again.
-/

namespace TypeAtlas.Schema

/-- Schemas with the same table of types, and the same pointer width given last, merge to the
same schema. -/
theorem merged_congr {schemas others : List Schema}
    (htypes : Keyed.Alike TypeDef.name (schemas.flatMap (·.types)) (others.flatMap (·.types)))
    (harch : (schemas.filterMap (·.arch)).getLast? = (others.filterMap (·.arch)).getLast?) :
    merged schemas = merged others := by
  have htable := htypes.tabulates (merged_tabulates others)
  have hsame : (merged schemas).types = (merged others).types :=
    (merged_tabulates schemas).unique htable
  have hwidth : (merged schemas).arch = (merged others).arch := by
    rw [arch_merged, arch_merged, harch]
  calc merged schemas = ⟨(merged schemas).arch, (merged schemas).types⟩ := rfl
    _ = ⟨(merged others).arch, (merged others).types⟩ := by rw [hwidth, hsame]
    _ = merged others := rfl

/-- A merged schema stands for the schemas it was made of, whatever comes before and after. -/
theorem merged_splice (before stage after : List Schema) :
    merged (before ++ merged stage :: after) = merged (before ++ stage ++ after) := by
  apply merged_congr
  · have hstage := (merged_tabulates stage).alike
    have hplaced := (hstage.append_left (before.flatMap (·.types))).append_right
      (after.flatMap (·.types))
    simpa only [List.flatMap_append, List.flatMap_cons, List.append_assoc] using hplaced
  · rw [List.filterMap_append, List.filterMap_append, List.filterMap_append, List.filterMap_cons,
      arch_merged]
    cases hlast : (stage.filterMap (·.arch)).getLast? with
    | none => simp [List.getLast?_append, hlast]
    | some width => simp [List.getLast?_append, List.getLast?_cons, hlast]

/-- Schemas that come again at once change nothing. -/
theorem merged_repeat (before stage after : List Schema) :
    merged (before ++ stage ++ (stage ++ after)) = merged (before ++ stage ++ after) := by
  apply merged_congr
  · have htwice : Keyed.Alike TypeDef.name _ _ :=
      Keyed.alike_append_self (stage.flatMap (·.types))
    have hplaced := (htwice.append_left (before.flatMap (·.types))).append_right
      (after.flatMap (·.types))
    simpa only [List.flatMap_append, List.append_assoc] using hplaced
  · simp only [List.filterMap_append, List.getLast?_append, Option.or_assoc]
    cases (stage.filterMap (·.arch)).getLast? <;> simp

theorem merged_append_map_merged (before : List Schema) (groups : List (List Schema)) :
    merged (before ++ groups.map merged) = merged (before ++ groups.flatten) := by
  induction groups generalizing before with
  | nil => rfl
  | cons group rest ih =>
    calc merged (before ++ merged group :: rest.map merged)
        = merged (before ++ group ++ rest.map merged) := merged_splice before group _
      _ = merged (before ++ group ++ rest.flatten) := ih (before ++ group)
      _ = merged (before ++ (group ++ rest.flatten)) := by rw [List.append_assoc]

/-- Schemas may be merged in any stages: a merged schema stands for the schemas it was made of,
however they are grouped, and what is merged again, beside itself or into the merge that it is
the result of, changes nothing. -/
theorem merged_in_stages :
    (∀ before stage after : List Schema,
      merged (before ++ merged stage :: after) = merged (before ++ stage ++ after)) ∧
    (∀ groups : List (List Schema), merged (groups.map merged) = merged groups.flatten) ∧
    (∀ first second third : Schema,
      merged [merged [first, second], third] = merged [first, merged [second, third]]) ∧
    (∀ stage : List Schema, merged [merged stage] = merged stage) ∧
    (∀ before stage after : List Schema,
      merged (before ++ merged stage :: merged stage :: after) =
        merged (before ++ merged stage :: after)) ∧
    ∀ stage after : List Schema,
      merged (stage ++ merged stage :: after) = merged (stage ++ after) := by
  refine ⟨merged_splice, merged_append_map_merged [], ?_, ?_, ?_, ?_⟩
  · intro first second third
    calc merged [merged [first, second], third]
        = merged [first, second, third] := merged_splice [] [first, second] [third]
      _ = merged [first, merged [second, third]] := (merged_splice [first] [second, third] []).symm
  · intro stage
    have hstage := merged_splice [] stage []
    rwa [List.nil_append, List.nil_append, List.append_nil] at hstage
  · intro before stage after
    calc merged (before ++ merged stage :: merged stage :: after)
        = merged (before ++ stage ++ merged stage :: after) := merged_splice before stage _
      _ = merged (before ++ stage ++ stage ++ after) := merged_splice (before ++ stage) stage after
      _ = merged (before ++ stage ++ after) := by
        rw [List.append_assoc (before ++ stage), merged_repeat]
      _ = merged (before ++ merged stage :: after) := (merged_splice before stage after).symm
  · intro stage after
    calc merged (stage ++ merged stage :: after)
        = merged (stage ++ stage ++ after) := merged_splice stage stage after
      _ = merged (stage ++ after) := by
        rw [List.append_assoc]
        exact merged_repeat [] stage after

end TypeAtlas.Schema
