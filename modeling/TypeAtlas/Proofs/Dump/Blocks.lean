import TypeAtlas.Dump.Blocks

/-!
# Reading block by block

The reader goes through a dump line by line and keeps the type and the member that are open.
What it ends with is what the blocks of the dump say. A run over lines that begin nothing
changes what is open by the last values that they give; closing a member is put off to the
line that begins the next one; and a type is closed in the same way by the next type.
-/

namespace TypeAtlas.Dump

/-! ## Cuts -/

/-- The entries of some parts, each behind what begins it. -/
def joined (begin : β → α) (parts : List (β × List α)) : List α :=
  parts.flatMap fun part => begin part.1 :: part.2

section Cuts

variable {begins? : α → Option β} {begin : β → α}

/-- A cut loses nothing. -/
theorem cutBefore_joined (hbegin : ∀ entry what, begins? entry = some what → begin what = entry)
    (entries : List α) :
    (cutBefore begins? entries).1 ++ joined begin (cutBefore begins? entries).2 = entries := by
  induction entries with
  | nil => rfl
  | cons entry rest ih =>
    cases hentry : begins? entry with
    | none => simpa [cutBefore, hentry] using ih
    | some what => simpa [cutBefore, hentry, joined, hbegin entry what hentry] using ih

/-- Nothing begins inside of what a cut leaves together. -/
theorem begins?_of_cutBefore (begins? : α → Option β) (entries : List α) :
    (∀ entry ∈ (cutBefore begins? entries).1, begins? entry = none) ∧
      ∀ part ∈ (cutBefore begins? entries).2, ∀ entry ∈ part.2, begins? entry = none := by
  induction entries with
  | nil => simp [cutBefore]
  | cons entry rest ih =>
    cases hentry : begins? entry with
    | none => simpa [cutBefore, hentry] using ih
    | some what => simpa [cutBefore, hentry] using ih

end Cuts

/-! ## Values given last -/

theorem lastGiven_cons (gives? : Directive → Option α) (line : Directive)
    (rest : List Directive) :
    lastGiven gives? (line :: rest) = (lastGiven gives? rest).or (gives? line) := by
  unfold lastGiven
  cases hline : gives? line with
  | none => simp [hline]
  | some value => simp [hline, List.getLast?_cons, Option.or_some]

@[simp] theorem lastGiven_nil (gives? : Directive → Option α) : lastGiven gives? [] = none := rfl

@[simp] theorem lastGiven_singleton (gives? : Directive → Option α) (line : Directive) :
    lastGiven gives? [line] = gives? line := by
  rw [lastGiven_cons, lastGiven_nil, Option.none_or]

theorem lastGiven_append (gives? : Directive → Option α) (front back : List Directive) :
    lastGiven gives? (front ++ back) = (lastGiven gives? back).or (lastGiven gives? front) := by
  simp [lastGiven, List.getLast?_append]

/-! ## Lines that begin nothing -/

def fieldAfter (field : FieldDef) (lines : List Directive) : FieldDef where
  name := (lastGiven name? lines).getD field.name
  typeName := (lastGiven fieldType? lines).getD field.typeName
  offset := (lastGiven fieldOffset? lines).getD field.offset
  pointerDepth := (lastGiven fieldPointers? lines).getD field.pointerDepth
  arraySize := (lastGiven fieldArray? lines).getD field.arraySize
  isConst := (lastGiven fieldConst? lines).getD field.isConst
  isRecord := (lastGiven fieldRecord? lines).getD field.isRecord

def enumeratorAfter (enumerator : EnumeratorDef) (lines : List Directive) : EnumeratorDef where
  name := (lastGiven enumeratorName? lines).getD enumerator.name
  value := (lastGiven enumeratorValue? lines).getD enumerator.value

def Member.after : Member → List Directive → Member
  | .field definition, lines => .field (fieldAfter definition lines)
  | .enumerator definition, lines => .enumerator (enumeratorAfter definition lines)

/-- A type after some lines. They name it only while no member is open. -/
def typeAfter (named : Bool) (ty : TypeDef) (lines : List Directive) : TypeDef where
  name := if named then (lastGiven name? lines).getD ty.name else ty.name
  kind := ty.kind
  size := (lastGiven size? lines).getD ty.size
  aliases := ty.aliases ++ lines.filterMap otherName?
  fields := ty.fields
  enumerators := ty.enumerators

def State.after (state : State) (lines : List Directive) : State where
  arch := (lastGiven width? lines).or state.arch
  types := state.types
  current := state.current.map fun ty => typeAfter state.member.isNone ty lines
  member := state.member.map fun member => member.after lines

def IsPlain (line : Directive) : Prop := typeBegun? line = none ∧ memberBegun? line = none

theorem Member.after_nil (member : Member) : member.after [] = member := by
  cases member <;> rfl

theorem Member.after_cons (member : Member) (line : Directive) (rest : List Directive) :
    (member.after [line]).after rest = member.after (line :: rest) := by
  cases member with
  | field definition => simp [Member.after, fieldAfter, lastGiven_cons, Option.getD_or]
  | enumerator definition =>
    simp [Member.after, enumeratorAfter, lastGiven_cons, Option.getD_or]

theorem typeAfter_nil (named : Bool) (ty : TypeDef) : typeAfter named ty [] = ty := by
  simp [typeAfter]

theorem typeAfter_cons (named : Bool) (ty : TypeDef) (line : Directive)
    (rest : List Directive) :
    typeAfter named (typeAfter named ty [line]) rest = typeAfter named ty (line :: rest) := by
  have hnames : (line :: rest).filterMap otherName? =
      [line].filterMap otherName? ++ rest.filterMap otherName? := by
    rw [← List.filterMap_append, List.singleton_append]
  simp only [typeAfter, lastGiven_cons, lastGiven_nil, Option.none_or, Option.getD_or, hnames,
    List.append_assoc]
  cases named <;> rfl

theorem State.after_nil (state : State) : state.after [] = state := by
  have htype : (fun ty => typeAfter state.member.isNone ty []) = id :=
    funext (typeAfter_nil _)
  have hmember : (fun member : Member => member.after []) = id := funext Member.after_nil
  simp [State.after, htype, hmember]

theorem State.after_cons (state : State) (line : Directive) (rest : List Directive) :
    (state.after [line]).after rest = state.after (line :: rest) := by
  simp only [State.after, lastGiven_cons, lastGiven_nil, Option.none_or, Option.or_assoc,
    Option.map_map, Option.isNone_map, Function.comp_def, typeAfter_cons, Member.after_cons]

/-- A line that begins nothing changes what is open by what it gives. -/
theorem State.step_of_plain {line : Directive} (h : IsPlain line) (state : State) :
    state.step line = state.after [line] := by
  obtain ⟨htype, hmember⟩ := h
  obtain ⟨arch, types, current, member⟩ := state
  cases line with
  | type kind => cases htype
  | field => cases hmember
  | enumerator => cases hmember
  | arch width =>
    cases width <;> rcases member with _ | (field | enumerator) <;> cases current <;>
      simp [step, after, typeAfter, Member.after, fieldAfter, enumeratorAfter, width?, name?,
        size?, otherName?, enumeratorName?, enumeratorValue?, fieldType?, fieldOffset?,
        fieldPointers?, fieldArray?, fieldConst?, fieldRecord?, List.filterMap_cons]
  | _ =>
    rcases member with _ | (field | enumerator) <;> cases current <;>
      simp [step, setName, editType, editField, editEnumerator, after, typeAfter, Member.after,
        fieldAfter, enumeratorAfter, width?, name?, size?, otherName?, enumeratorName?,
        enumeratorValue?, fieldType?, fieldOffset?, fieldPointers?, fieldArray?, fieldConst?,
        fieldRecord?, List.filterMap_cons]

theorem State.foldl_step_of_plain {lines : List Directive} (h : ∀ line ∈ lines, IsPlain line)
    (state : State) : lines.foldl step state = state.after lines := by
  induction lines generalizing state with
  | nil => exact state.after_nil.symm
  | cons line rest ih =>
    obtain ⟨hline, hrest⟩ := List.forall_mem_cons.mp h
    rw [List.foldl_cons, ih hrest, step_of_plain hline, after_cons]

/-! ## Segments of a block -/

def MemberKind.directive : MemberKind → Directive
  | .field => .field
  | .enumerator => .enumerator

def MemberKind.bare : MemberKind → Member
  | .field => .field State.bareField
  | .enumerator => .enumerator State.bareEnumerator

theorem directive_of_memberBegun? (line : Directive) (kind : MemberKind)
    (h : memberBegun? line = some kind) : kind.directive = line := by
  cases line <;> cases h <;> rfl

theorem closeMember_closeMember (state : State) :
    state.closeMember.closeMember = state.closeMember := by
  obtain ⟨arch, types, current, member⟩ := state
  cases current <;> cases member <;> rfl

theorem step_directive (state : State) (kind : MemberKind) :
    state.step kind.directive = { state.closeMember with member := some kind.bare } := by
  cases kind <;> rfl

/-- A member that is still open may as well be closed before the segments that follow. -/
theorem closeMember_foldl_segments (segments : List (MemberKind × List Directive))
    (state : State) :
    ((joined MemberKind.directive segments).foldl State.step state).closeMember =
      ((joined MemberKind.directive segments).foldl State.step state.closeMember).closeMember := by
  cases segments with
  | nil => exact (closeMember_closeMember state).symm
  | cons segment rest =>
    rw [joined, List.flatMap_cons, List.cons_append, List.foldl_cons, List.foldl_cons,
      step_directive, step_directive, closeMember_closeMember]

/-- A type with what some segments say behind it. -/
def typeWith (ty : TypeDef) (segments : List (MemberKind × List Directive)) : TypeDef where
  name := ty.name
  kind := ty.kind
  size := (lastGiven size? (joined MemberKind.directive segments)).getD ty.size
  aliases := ty.aliases ++ (joined MemberKind.directive segments).filterMap otherName?
  fields := ty.fields ++ (segments.filterMap fieldOf?).filter (·.name ≠ "")
  enumerators := ty.enumerators ++ (segments.filterMap enumeratorOf?).filter (·.name ≠ "")

theorem typeWith_nil (ty : TypeDef) : typeWith ty [] = ty := by
  simp [typeWith, joined]

theorem joined_cons (kind : MemberKind) (segment : List Directive)
    (rest : List (MemberKind × List Directive)) :
    joined MemberKind.directive ((kind, segment) :: rest) =
      kind.directive :: segment ++ joined MemberKind.directive rest := rfl

/-- What is given last in some segments, if not by the line that begins the first. -/
theorem lastGiven_joined_cons {gives? : Directive → Option α}
    (hnone : ∀ kind : MemberKind, gives? kind.directive = none) (kind : MemberKind)
    (segment : List Directive) (rest : List (MemberKind × List Directive)) :
    lastGiven gives? (joined MemberKind.directive ((kind, segment) :: rest)) =
      (lastGiven gives? (joined MemberKind.directive rest)).or (lastGiven gives? segment) := by
  rw [joined_cons, List.cons_append, lastGiven_cons, hnone kind, Option.or_none,
    lastGiven_append]

/-- A segment's own lines size and name the type, and its member goes behind those before. -/
theorem typeWith_cons (ty : TypeDef) (kind : MemberKind) (segment : List Directive)
    (rest : List (MemberKind × List Directive)) :
    typeWith (State.addMember (typeAfter false ty segment) (kind.bare.after segment)) rest =
      typeWith ty ((kind, segment) :: rest) := by
  have hnone : ∀ kind : MemberKind, size? kind.directive = none := by rintro (_ | _) <;> rfl
  have hsize := lastGiven_joined_cons hnone kind segment rest
  have haliases : (joined MemberKind.directive ((kind, segment) :: rest)).filterMap otherName? =
      segment.filterMap otherName? ++
        (joined MemberKind.directive rest).filterMap otherName? := by
    rw [joined_cons, List.filterMap_append]
    cases kind <;> rfl
  cases kind with
  | field =>
    have hmember : (MemberKind.bare .field).after segment = .field (fieldOf segment) := rfl
    rw [hmember]
    by_cases hname : (fieldOf segment).name = "" <;>
      simp [typeWith, State.addMember, typeAfter, hsize, haliases, hname, fieldOf?,
        enumeratorOf?, List.filterMap_cons]
  | enumerator =>
    have hmember : (MemberKind.bare .enumerator).after segment =
        .enumerator (enumeratorOf segment) := rfl
    rw [hmember]
    by_cases hname : (enumeratorOf segment).name = "" <;>
      simp [typeWith, State.addMember, typeAfter, hsize, haliases, hname, fieldOf?,
        enumeratorOf?, List.filterMap_cons]

/-- The segments of a block leave its type with their members. -/
theorem foldl_segments {segments : List (MemberKind × List Directive)}
    (hplain : ∀ segment ∈ segments, ∀ line ∈ segment.2, IsPlain line) (arch : Option UInt64)
    (types : List TypeDef) (ty : TypeDef) :
    ((joined MemberKind.directive segments).foldl State.step
        ⟨arch, types, some ty, none⟩).closeMember =
      ⟨(lastGiven width? (joined MemberKind.directive segments)).or arch, types,
        some (typeWith ty segments), none⟩ := by
  induction segments generalizing arch ty with
  | nil =>
    rw [typeWith_nil]
    rfl
  | cons first rest ih =>
    obtain ⟨kind, segment⟩ := first
    obtain ⟨hfirst, hrest⟩ := List.forall_mem_cons.mp hplain
    have hclosed : (State.after ⟨arch, types, some ty, some kind.bare⟩ segment).closeMember =
        ⟨(lastGiven width? segment).or arch, types,
          some (State.addMember (typeAfter false ty segment) (kind.bare.after segment)), none⟩ :=
      rfl
    have hnone : ∀ kind : MemberKind, width? kind.directive = none := by
      rintro (_ | _) <;> rfl
    have hwidth := lastGiven_joined_cons hnone kind segment rest
    rw [hwidth, ← typeWith_cons, joined_cons, List.cons_append, List.foldl_cons, step_directive,
      List.foldl_append, State.foldl_step_of_plain hfirst, closeMember_foldl_segments]
    have hopen : State.closeMember ⟨arch, types, some ty, none⟩ = ⟨arch, types, some ty, none⟩ :=
      rfl
    rw [hopen, hclosed, ih hrest, Option.or_assoc]

/-! ## Blocks of a dump -/

theorem type_of_typeBegun? (line : Directive) (kind : TypeKind)
    (h : typeBegun? line = some kind) : Directive.type kind = line := by
  cases line <;> cases h
  rfl

/-- The type that a block gives is what its own lines and its segments say. -/
theorem typeOf_of_cutBefore {lines own : List Directive}
    {segments : List (MemberKind × List Directive)}
    (hcut : cutBefore memberBegun? lines = (own, segments)) (kind : TypeKind) :
    typeOf (kind, lines) = typeWith (typeAfter true (State.bareType kind) own) segments := by
  have hjoined := cutBefore_joined directive_of_memberBegun? lines
  rw [hcut] at hjoined
  have hsize := lastGiven_append size? own (joined MemberKind.directive segments)
  have haliases : (own ++ joined MemberKind.directive segments).filterMap otherName? =
      own.filterMap otherName? ++ (joined MemberKind.directive segments).filterMap otherName? :=
    List.filterMap_append
  rw [hjoined] at hsize haliases
  simp only [typeOf, hcut, hsize, haliases, typeWith, typeAfter, State.bareType, Option.getD_or,
    List.nil_append, if_true]

/-- The lines of a block leave the type that the block gives. -/
theorem foldl_block {lines : List Directive} (hlines : ∀ line ∈ lines, typeBegun? line = none)
    (arch : Option UInt64) (types : List TypeDef) (kind : TypeKind) :
    (lines.foldl State.step ⟨arch, types, some (State.bareType kind), none⟩).closeMember =
      ⟨(lastGiven width? lines).or arch, types, some (typeOf (kind, lines)), none⟩ := by
  have hjoined := cutBefore_joined directive_of_memberBegun? lines
  obtain ⟨hown, hsegments⟩ := begins?_of_cutBefore memberBegun? lines
  rcases hcut : cutBefore memberBegun? lines with ⟨own, segments⟩
  rw [hcut] at hjoined hown hsegments
  have hplainOwn : ∀ line ∈ own, IsPlain line := by
    intro line hmem
    exact ⟨hlines line (hjoined ▸ List.mem_append_left _ hmem), hown line hmem⟩
  have hplain : ∀ segment ∈ segments, ∀ line ∈ segment.2, IsPlain line := by
    intro segment hsegment line hmem
    have hin : line ∈ joined MemberKind.directive segments :=
      List.mem_flatMap.mpr ⟨segment, hsegment, List.mem_cons_of_mem _ hmem⟩
    exact ⟨hlines line (hjoined ▸ List.mem_append_right _ hin),
      hsegments segment hsegment line hmem⟩
  have hafter : State.after ⟨arch, types, some (State.bareType kind), none⟩ own =
      ⟨(lastGiven width? own).or arch, types,
        some (typeAfter true (State.bareType kind) own), none⟩ := rfl
  rw [typeOf_of_cutBefore hcut, ← hjoined, List.foldl_append,
    State.foldl_step_of_plain hplainOwn, hafter, foldl_segments hplain, lastGiven_append,
    Option.or_assoc]

theorem closeType_eq (state : State) :
    ∃ types, state.closeType = ⟨state.arch, types, none, none⟩ := by
  obtain ⟨arch, types, current, member⟩ := state
  cases current <;> cases member <;> exact ⟨_, rfl⟩

theorem closeType_closeType (state : State) : state.closeType.closeType = state.closeType := by
  obtain ⟨types, hclosed⟩ := closeType_eq state
  rw [hclosed]
  rfl

/-- A type that is still open may as well be closed before the blocks that follow. -/
theorem closeType_foldl_blocks (blocks : List (TypeKind × List Directive)) (state : State) :
    ((joined Directive.type blocks).foldl State.step state).closeType =
      ((joined Directive.type blocks).foldl State.step state.closeType).closeType := by
  cases blocks with
  | nil => exact (closeType_closeType state).symm
  | cons block rest =>
    rw [joined, List.flatMap_cons, List.cons_append, List.foldl_cons, List.foldl_cons]
    rw [State.step, State.step, closeType_closeType]

theorem closeType_of_closeMember {state : State} {arch : Option UInt64} {types : List TypeDef}
    {ty : TypeDef} (h : state.closeMember = ⟨arch, types, some ty, none⟩) :
    state.closeType = ⟨arch, types ++ [ty].filter (·.name ≠ ""), none, none⟩ := by
  rw [State.closeType, h]
  by_cases hname : ty.name = "" <;> simp [hname]

theorem foldl_blocks {blocks : List (TypeKind × List Directive)}
    (hplain : ∀ block ∈ blocks, ∀ line ∈ block.2, typeBegun? line = none)
    (arch : Option UInt64) (types : List TypeDef) :
    ((joined Directive.type blocks).foldl State.step ⟨arch, types, none, none⟩).closeType =
      ⟨(lastGiven width? (joined Directive.type blocks)).or arch,
        types ++ (blocks.map typeOf).filter (·.name ≠ ""), none, none⟩ := by
  induction blocks generalizing arch types with
  | nil =>
    rw [List.map_nil, List.filter_nil, List.append_nil]
    rfl
  | cons first rest ih =>
    obtain ⟨kind, lines⟩ := first
    obtain ⟨hfirst, hrest⟩ := List.forall_mem_cons.mp hplain
    have hbegun : (⟨arch, types, none, none⟩ : State).step (.type kind) =
        ⟨arch, types, some (State.bareType kind), none⟩ := rfl
    have hclosed := closeType_of_closeMember (foldl_block hfirst arch types kind)
    have hjoined : joined Directive.type ((kind, lines) :: rest) =
        .type kind :: (lines ++ joined Directive.type rest) := rfl
    have hwidth : lastGiven width? (joined Directive.type ((kind, lines) :: rest)) =
        (lastGiven width? (joined Directive.type rest)).or (lastGiven width? lines) := by
      rw [hjoined, lastGiven_cons, lastGiven_append]
      exact Option.or_none
    rw [hwidth, hjoined, List.foldl_cons, hbegun, List.foldl_append, closeType_foldl_blocks,
      hclosed, ih hrest, List.append_assoc, ← List.filter_append, Option.or_assoc]
    rfl

/-- Before the first type no type is open, so nothing but the width is kept. -/
theorem foldl_front {lines : List Directive} (hlines : ∀ line ∈ lines, typeBegun? line = none)
    (arch : Option UInt64) (types : List TypeDef) (member : Option Member) :
    ∃ left, lines.foldl State.step ⟨arch, types, none, member⟩ =
      ⟨(lastGiven width? lines).or arch, types, none, left⟩ := by
  induction lines generalizing arch member with
  | nil => exact ⟨member, rfl⟩
  | cons line rest ih =>
    obtain ⟨hline, hrest⟩ := List.forall_mem_cons.mp hlines
    have hstep : ∃ left, (⟨arch, types, none, member⟩ : State).step line =
        ⟨(width? line).or arch, types, none, left⟩ := by
      cases line with
      | type kind => cases hline
      | arch width => cases width <;> exact ⟨_, rfl⟩
      | _ => rcases member with _ | (field | enumerator) <;> exact ⟨_, rfl⟩
    obtain ⟨left, hleft⟩ := hstep
    rw [List.foldl_cons, hleft, lastGiven_cons, Option.or_assoc]
    exact ih hrest _ left

/-- Reading line by line gives what the blocks say. -/
theorem ofDirectives_eq_ofBlocks (lines : List Directive) :
    ofDirectives lines = ofBlocks lines := by
  have hjoined := cutBefore_joined type_of_typeBegun? lines
  obtain ⟨hfront, hblocks⟩ := begins?_of_cutBefore typeBegun? lines
  rcases hcut : cutBefore typeBegun? lines with ⟨front, blocks⟩
  rw [hcut] at hjoined hfront hblocks
  obtain ⟨left, hleft⟩ := foldl_front hfront none [] none
  have hclosed : (⟨(lastGiven width? front).or none, [], none, left⟩ : State).closeType =
      ⟨lastGiven width? front, [], none, none⟩ := by
    rw [Option.or_none]
    cases left <;> rfl
  have hread : (lines.foldl State.step State.empty).closeType =
      ⟨lastGiven width? lines, (blocks.map typeOf).filter (·.name ≠ ""), none, none⟩ := by
    rw [← hjoined, List.foldl_append, State.empty, hleft, closeType_foldl_blocks, hclosed,
      foldl_blocks hblocks, lastGiven_append, List.nil_append]
  rw [ofDirectives, State.finish, hread, ofBlocks, hcut]

/-- A blank line at the end says nothing. -/
theorem ofDirectives_concat_blank (lines : List Directive) :
    ofDirectives (lines ++ [.blank]) = ofDirectives lines := by
  rw [ofDirectives, List.foldl_append]
  rfl

end TypeAtlas.Dump
