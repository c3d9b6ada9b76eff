import TypeAtlas.Proofs.Dump.Blocks
import TypeAtlas.Proofs.Schema.Merging

/-!
# Dumps put together

A dump that begins with types of its own does not touch what the dump before it has left
open: its first type closes it, as the end of the text would have. So one dump behind another
gives the types of both in order, and the pointer width given last, which is what a merge
makes of the two when it takes them one after the other.
-/

namespace TypeAtlas

namespace Dump

def isAside : Directive → Bool
  | .blank | .arch _ | .unknown _ => true
  | _ => false

/-- Nothing is said about a type or a member before the first type of the dump begins. -/
def StandsAlone (text : String) : Prop :=
  ∀ line ∈ (directives text).takeWhile fun line => (typeBegun? line).isNone, isAside line = true

instance (text : String) : Decidable (StandsAlone text) :=
  decidable_of_iff (((directives text).takeWhile fun line => (typeBegun? line).isNone).all isAside)
    List.all_eq_true

theorem fst_cutBefore (begins? : α → Option β) (entries : List α) :
    (cutBefore begins? entries).1 = entries.takeWhile fun entry => (begins? entry).isNone := by
  induction entries with
  | nil => rfl
  | cons entry rest ih =>
    cases hentry : begins? entry with
    | none => simp [cutBefore, hentry, ih]
    | some what => simp [cutBefore, hentry]

/-! ## Across the seam -/

theorem step_of_isAside {line : Directive} (h : isAside line = true) (state : State) :
    state.step line = { state with arch := (width? line).or state.arch } := by
  cases line with
  | blank | unknown keyword => rfl
  | arch width => cases width <;> rfl
  | _ => cases h

theorem foldl_step_of_isAside {lines : List Directive} (h : ∀ line ∈ lines, isAside line = true)
    (state : State) :
    lines.foldl State.step state =
      { state with arch := (lastGiven width? lines).or state.arch } := by
  induction lines generalizing state with
  | nil => rfl
  | cons line rest ih =>
    obtain ⟨hline, hrest⟩ := List.forall_mem_cons.mp h
    rw [List.foldl_cons, ih hrest, step_of_isAside hline, lastGiven_cons, Option.or_assoc]

/-- The pointer width has no part in what is closed. -/
theorem closeType_withArch (state : State) (arch : Option UInt64) :
    State.closeType { state with arch := arch } = ⟨arch, state.closeType.types, none, none⟩ := by
  obtain ⟨width, types, current, member⟩ := state
  cases current <;> cases member <;> rfl

theorem closeType_eq_types (state : State) :
    state.closeType = ⟨state.arch, state.closeType.types, none, none⟩ :=
  closeType_withArch state state.arch

/-- Whatever is open when a dump begins is closed as it is, and the types of the dump follow. -/
theorem closeType_foldl_step {lines : List Directive}
    (h : ∀ line ∈ (cutBefore typeBegun? lines).1, isAside line = true) (state : State) :
    (lines.foldl State.step state).closeType =
      ⟨(ofBlocks lines).arch.or state.arch, state.closeType.types ++ (ofBlocks lines).types,
        none, none⟩ := by
  have hjoined := cutBefore_joined type_of_typeBegun? lines
  obtain ⟨-, hblocks⟩ := begins?_of_cutBefore typeBegun? lines
  rcases hcut : cutBefore typeBegun? lines with ⟨front, blocks⟩
  rw [hcut] at hjoined hblocks h
  have harch := lastGiven_append width? front (joined Directive.type blocks)
  rw [hjoined] at harch
  -- The lines in front change the width and nothing else; what is open meets the first type.
  calc (lines.foldl State.step state).closeType
      = ((joined Directive.type blocks).foldl State.step
          { state with arch := (lastGiven width? front).or state.arch }).closeType := by
        rw [← hjoined, List.foldl_append, foldl_step_of_isAside h]
    _ = ((joined Directive.type blocks).foldl State.step
          ⟨(lastGiven width? front).or state.arch, state.closeType.types, none,
            none⟩).closeType := by
        rw [closeType_foldl_blocks, closeType_withArch state]
    _ = ⟨(ofBlocks lines).arch.or state.arch, state.closeType.types ++ (ofBlocks lines).types,
          none, none⟩ := by
        rw [foldl_blocks hblocks, ofBlocks, hcut, harch, Option.or_assoc]

/-- The directives of one dump behind those of another. -/
theorem ofDirectives_append {front back : List Directive}
    (h : ∀ line ∈ (cutBefore typeBegun? back).1, isAside line = true) :
    ofDirectives (front ++ back) =
      ⟨(ofDirectives back).arch.or (ofDirectives front).arch,
        (ofDirectives front).types ++ (ofDirectives back).types⟩ := by
  rw [ofDirectives_eq_ofBlocks back, ofDirectives, List.foldl_append, State.finish,
    closeType_foldl_step h, ofDirectives, State.finish, closeType_eq_types]

/-! ## Texts put together -/

/-- Behind a line feed the next text begins with a line of its own. -/
theorem directives_append (front back : String) :
    directives (front ++ "\n" ++ back) = directives front ++ directives back := by
  have hlines : (front ++ "\n" ++ back).toList = front.toList ++ '\n' :: back.toList := by simp
  rw [directives, hlines, Text.lines_append_lineFeed, List.map_append]
  rfl

theorem parse_append_lineFeed (front : String) :
    parse (front ++ "\n") = ofDirectives (directives front) := by
  have hempty : directives "" = [.blank] := rfl
  have hdirectives := directives_append front ""
  rw [String.append_empty, hempty] at hdirectives
  rw [parse, hdirectives, ofDirectives_concat_blank]

/-- The types of both dumps in order, and the pointer width that is given last. -/
theorem parse_append {front back : String} (hends : front = "" ∨ ∃ lines, front = lines ++ "\n")
    (halone : StandsAlone back) :
    parse (front ++ back) =
      ⟨(parse back).arch.or (parse front).arch, (parse front).types ++ (parse back).types⟩ := by
  rcases hends with rfl | ⟨lines, rfl⟩
  · have hempty : parse "" = ⟨none, []⟩ := rfl
    rw [String.empty_append, hempty, Option.or_none, List.nil_append]
  · have haside : ∀ line ∈ (cutBefore typeBegun? (directives back)).1, isAside line = true := by
      rw [fst_cutBefore]
      exact halone
    rw [parse_append_lineFeed, parse, directives_append, ofDirectives_append haside]
    rfl

end Dump

namespace Merge

/-! ## Merging what is put together -/

theorem addType_withArch (merge : Merge) (arch : Option UInt64) (ty : TypeDef) :
    Merge.addType { merge with arch := arch } ty = { merge.addType ty with arch := arch } := by
  unfold addType
  cases merge.positions.lookup ty.name <;> rfl

theorem foldl_addType_withArch (merge : Merge) (types : List TypeDef) (arch : Option UInt64) :
    types.foldl addType { merge with arch := arch } =
      { types.foldl addType merge with arch := arch } := by
  induction types generalizing merge with
  | nil => rfl
  | cons ty rest ih => rw [List.foldl_cons, List.foldl_cons, addType_withArch, ih]

/-- The types that are added do not look at the pointer width. -/
theorem add_eq (merge : Merge) (schema : Schema) :
    merge.add schema =
      { schema.types.foldl addType merge with arch := schema.arch.or merge.arch } :=
  foldl_addType_withArch merge schema.types _

/-- To add a schema with the types of two is to add the one and then the other. -/
theorem add_append (merge : Merge) (earlier later : Schema) :
    merge.add ⟨later.arch.or earlier.arch, earlier.types ++ later.types⟩ =
      (merge.add earlier).add later := by
  rw [add_eq, add_eq (merge.add earlier), add_eq merge earlier,
    foldl_addType_withArch (earlier.types.foldl addType merge), List.foldl_append, Option.or_assoc]

/-- One dump behind another, merged as a whole, leaves any merge as it is left by the one and
then the other. -/
theorem add_parse_append {front back : String}
    (hends : front = "" ∨ ∃ lines, front = lines ++ "\n") (halone : Dump.StandsAlone back)
    (merge : Merge) :
    merge.add (Dump.parse (front ++ back)) =
      (merge.add (Dump.parse front)).add (Dump.parse back) := by
  rw [Dump.parse_append hends halone, add_append]

/-- The first dump ends with a field open, and the second defines a name of it and a name of the
merge again. -/
theorem add_parse_append_open :
    let front := "arch 4\nstruct\nname pair\nfield\nname left\n"
    let back := "\n arch 8 \nlater left\nbase\nname int\nsize 4\nunion\nname pair\n"
    let merge := Merge.empty.addType ⟨"int", .base, 2, [], [], []⟩
    (front = "" ∨ ∃ lines, front = lines ++ "\n") ∧ Dump.StandsAlone back ∧
      (Dump.parse front).types =
        [⟨"pair", .struct, 0, [], [⟨"left", "", 0, 0, 0, false, false⟩], []⟩] ∧
      merge.add (Dump.parse (front ++ back)) =
        (merge.add (Dump.parse front)).add (Dump.parse back) ∧
      (merge.add (Dump.parse (front ++ back))).finish =
        ⟨some 8, [⟨"int", .base, 4, [], [], []⟩, ⟨"pair", .union, 0, [], [], []⟩]⟩ := by
  intro front back merge
  have hends : front = "" ∨ ∃ lines, front = lines ++ "\n" :=
    .inr ⟨"arch 4\nstruct\nname pair\nfield\nname left", by decide +kernel⟩
  have halone : Dump.StandsAlone back := by decide +kernel
  exact ⟨hends, halone, by decide +kernel, add_parse_append hends halone merge, by decide +kernel⟩

end Merge

end TypeAtlas
