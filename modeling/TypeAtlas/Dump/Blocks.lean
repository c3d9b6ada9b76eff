import TypeAtlas.Dump.Reader

/-!
# Dumps in blocks

What a dump means, without reading it line by line: it falls into blocks, one for each
line that begins a type, and a block falls into segments, one for each line that begins a
member. Every attribute of a type or a member is then found by looking through its block
or segment for the last line that gives it.
-/

namespace TypeAtlas

namespace Dump

/-! ## Cutting a list before certain entries -/

/-- The entries before the first that begins a part, and the parts: what each begins, and
the entries up to the next one. -/
def cutBefore (begins? : α → Option β) : List α → List α × List (β × List α)
  | [] => ([], [])
  | entry :: rest =>
    let (front, parts) := cutBefore begins? rest
    match begins? entry with
    | some what => ([], (what, front) :: parts)
    | none => (entry :: front, parts)

theorem cutBefore_of_none {begins? : α → Option β} {entries : List α}
    (h : ∀ entry ∈ entries, begins? entry = none) :
    cutBefore begins? entries = (entries, []) := by
  induction entries with
  | nil => rfl
  | cons entry rest ih =>
    have hrest := ih fun other hmem => h other (List.mem_cons_of_mem entry hmem)
    simp [cutBefore, hrest, h entry List.mem_cons_self]

/-- What stands before a beginning stays in the last part before it. -/
theorem cutBefore_append_cons {begins? : α → Option β} {entry : α} {what : β}
    (h : begins? entry = some what) (front back : List α) :
    cutBefore begins? (front ++ entry :: back) =
      ((cutBefore begins? front).1,
        (cutBefore begins? front).2 ++
          (what, (cutBefore begins? back).1) :: (cutBefore begins? back).2) := by
  induction front with
  | nil => simp [cutBefore, h]
  | cons first rest ih =>
    cases hfirst : begins? first with
    | none => simp [cutBefore, ih, hfirst]
    | some other => simp [cutBefore, ih, hfirst]

/-! ## What lines begin and give -/

def typeBegun? : Directive → Option TypeKind
  | .type kind => some kind
  | _ => none

inductive MemberKind where
  | field
  | enumerator
  deriving DecidableEq, Repr

def memberBegun? : Directive → Option MemberKind
  | .field => some .field
  | .enumerator => some .enumerator
  | _ => none

/-- What the last line says that gives anything at all. -/
def lastGiven (gives? : Directive → Option α) (lines : List Directive) : Option α :=
  (lines.filterMap gives?).getLast?

def width? : Directive → Option UInt64
  | .arch width => width
  | _ => none

def name? : Directive → Option String
  | .name text => some text
  | _ => none

def otherName? : Directive → Option String
  | .otherName text => some text
  | _ => none

def size? : Directive → Option UInt64
  | .size value => some value
  | _ => none

/-- The name of an enumerator, which two keywords can give. -/
def enumeratorName? : Directive → Option String
  | .name text | .enumeratorName text => some text
  | _ => none

def enumeratorValue? : Directive → Option Int64
  | .enumeratorValue value => some value
  | _ => none

def fieldType? : Directive → Option String
  | .fieldType text => some text
  | _ => none

def fieldOffset? : Directive → Option UInt64
  | .fieldOffset value => some value
  | _ => none

def fieldPointers? : Directive → Option UInt32
  | .fieldPointers value => some value
  | _ => none

def fieldArray? : Directive → Option UInt64
  | .fieldArray value => some value
  | _ => none

def fieldConst? : Directive → Option Bool
  | .fieldConst value => some value
  | _ => none

def fieldRecord? : Directive → Option Bool
  | .fieldRecord value => some value
  | _ => none

/-! ## What blocks mean -/

/-- The field that a segment gives, without a name if it gives none. -/
def fieldOf (segment : List Directive) : FieldDef where
  name := (lastGiven name? segment).getD ""
  typeName := (lastGiven fieldType? segment).getD ""
  offset := (lastGiven fieldOffset? segment).getD 0
  pointerDepth := (lastGiven fieldPointers? segment).getD 0
  arraySize := (lastGiven fieldArray? segment).getD 0
  isConst := (lastGiven fieldConst? segment).getD false
  isRecord := (lastGiven fieldRecord? segment).getD false

def enumeratorOf (segment : List Directive) : EnumeratorDef where
  name := (lastGiven enumeratorName? segment).getD ""
  value := (lastGiven enumeratorValue? segment).getD 0

def fieldOf? : MemberKind × List Directive → Option FieldDef
  | (.field, segment) => some (fieldOf segment)
  | (.enumerator, _) => none

def enumeratorOf? : MemberKind × List Directive → Option EnumeratorDef
  | (.enumerator, segment) => some (enumeratorOf segment)
  | (.field, _) => none

/-- The type that a block gives. Its own name stands before its members. -/
def typeOf (block : TypeKind × List Directive) : TypeDef :=
  let (own, segments) := cutBefore memberBegun? block.2
  { name := (lastGiven name? own).getD ""
    kind := block.1
    size := (lastGiven size? block.2).getD 0
    aliases := block.2.filterMap otherName?
    fields := (segments.filterMap fieldOf?).filter (·.name ≠ "")
    enumerators := (segments.filterMap enumeratorOf?).filter (·.name ≠ "") }

def ofBlocks (lines : List Directive) : Schema where
  arch := lastGiven width? lines
  types := ((cutBefore typeBegun? lines).2.map typeOf).filter (·.name ≠ "")

end Dump

end TypeAtlas
