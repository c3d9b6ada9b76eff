import TypeAtlas.Text.Readable

/-!
# File trees

Files with a time and contents, and directories with entries in the order in which they
are enumerated. Names are bytes, which need not be text. A place in a tree is the list of the
names that lead down to it. A path is walked step by step as a file system walks it: every step
leaves a directory that is there, also a step that stays or goes up, so that a path through a
missing directory leads nowhere even if it comes back out of it.
-/

namespace TypeAtlas

inductive FileTree where
  | file (modified : Nat) (bytes : Bytes)
  | directory (entries : List (Bytes × FileTree))

inductive FileError where
  | notFound
  | notADirectory
  | isADirectory
  | nameTooLong
  | notText
  /-- Anything else, as the system puts it. -/
  | other (message : String)
  deriving DecidableEq, Repr

def FileError.message : FileError → String
  | notFound => "No such file or directory (os error 2)"
  | notADirectory => "Not a directory (os error 20)"
  | isADirectory => "Is a directory (os error 21)"
  | nameTooLong => "File name too long (os error 36)"
  | notText => "stream did not contain valid UTF-8"
  | other message => message

/-! ## Paths -/

structure FilePath where
  bytes : Bytes
  deriving DecidableEq, Repr

inductive PathStep where
  | stay
  | up
  | down (name : Bytes)
  deriving DecidableEq, Repr

namespace PathStep

/-- The step of a part between slashes; one dot and two dots name no entry. -/
def ofPart (part : Bytes) : PathStep :=
  if part = [0x2E] then stay else if part = [0x2E, 0x2E] then up else down part

end PathStep

namespace FilePath

def ofText (text : String) : FilePath := ⟨Bytes.ofString text⟩

def shown (path : FilePath) : String := Bytes.readable path.bytes

def slash : UInt8 := 0x2F

def nameLimit : Nat := 255

/-- The number of bytes that every path stays below. -/
def lengthLimit : Nat := 4096

def cut : Bytes → List Bytes
  | [] => [[]]
  | byte :: rest =>
    if byte = slash then [] :: cut rest
    else match cut rest with
      | [] => [[byte]]
      | part :: more => (byte :: part) :: more

/-- The steps from left to right. Slashes side by side count as one. -/
def steps (path : FilePath) : List PathStep :=
  ((cut path.bytes).filter fun part => !part.isEmpty).map PathStep.ofPart

/-- Does the path end in a slash, so that it can only mean a directory? -/
def meansDirectory (path : FilePath) : Bool := path.bytes.getLast? == some slash

/-- Why a path is refused before it is walked: it is empty, or as long as no path can be. -/
def refusal? (path : FilePath) : Option FileError :=
  if path.bytes.isEmpty then some .notFound
  else if lengthLimit ≤ path.bytes.length then some .nameTooLong
  else none

def join (path : FilePath) (name : Bytes) : FilePath :=
  if path.bytes.isEmpty || path.meansDirectory then ⟨path.bytes ++ name⟩
  else ⟨path.bytes ++ slash :: name⟩

end FilePath

namespace FileTree

def emptyDirectory : FileTree := .directory []

def child? (name : Bytes) : List (Bytes × FileTree) → Option FileTree
  | [] => none
  | (first, tree) :: rest => if first = name then some tree else child? name rest

/-- Put a tree in the place of the entry of a name, or behind all entries. -/
def setEntry (name : Bytes) (tree : FileTree) : List (Bytes × FileTree) →
    List (Bytes × FileTree)
  | [] => [(name, tree)]
  | (first, old) :: rest =>
    if first = name then (name, tree) :: rest else (first, old) :: setEntry name tree rest

/-- The entry that was put is found, and the others stay. -/
theorem child?_setEntry (name other : Bytes) (tree : FileTree)
    (entries : List (Bytes × FileTree)) :
    child? other (setEntry name tree entries) =
      if name = other then some tree else child? other entries := by
  induction entries with
  | nil => rfl
  | cons first rest ih =>
    obtain ⟨firstName, firstTree⟩ := first
    by_cases h : firstName = name
    · by_cases hother : name = other
      · simp [setEntry, child?, h, hother]
      · simp [setEntry, child?, h, hother]
    · by_cases hother : name = other
      · subst hother
        simp [setEntry, child?, h, ih]
      · simp [setEntry, child?, h, hother, ih]

def find (tree : FileTree) : List Bytes → Except FileError FileTree
  | [] => .ok tree
  | name :: rest =>
    match tree with
    | .file .. => .error .notADirectory
    | .directory entries =>
      match child? name entries with
      | none => .error .notFound
      | some below => below.find rest

/-- Give the file at a place new contents. What is no directory is replaced. -/
def write (tree : FileTree) (now : Nat) (bytes : Bytes) : List Bytes → Except FileError FileTree
  | [] => .error .isADirectory
  | name :: rest =>
    match tree with
    | .file .. => .error .notADirectory
    | .directory entries =>
      match rest, child? name entries with
      | [], some (.directory _) => .error .isADirectory
      | [], _ => .ok (.directory (setEntry name (.file now bytes) entries))
      | _ :: _, none => .error .notFound
      | next :: rest, some below =>
        (below.write now bytes (next :: rest)).map fun below =>
          .directory (setEntry name below entries)

/-- Make the directories on the way to a place, and at it, that are not there yet. -/
def makeDirectories (tree : FileTree) : List Bytes → FileTree
  | [] => tree
  | name :: rest =>
    match tree with
    | .file .. => tree
    | .directory entries =>
      .directory (setEntry name
        (((child? name entries).getD emptyDirectory).makeDirectories rest) entries)

/-! ## Walking -/

/-- Where a step leads from a place. Only a directory can be left. -/
def take (tree : FileTree) (place : List Bytes) (step : PathStep) :
    Except FileError (List Bytes) :=
  match tree.find place with
  | .error error => .error error
  | .ok (.file ..) => .error .notADirectory
  | .ok (.directory entries) =>
    match step with
    | .stay => .ok place
    | .up => .ok place.dropLast
    | .down name =>
      if FilePath.nameLimit < name.length then .error .nameTooLong
      else match child? name entries with
        | none => .error .notFound
        | some _ => .ok (place ++ [name])

def walk (tree : FileTree) (place : List Bytes) : List PathStep →
    Except FileError (List Bytes)
  | [] => .ok place
  | step :: rest =>
    match tree.take place step with
    | .error error => .error error
    | .ok place => tree.walk place rest

/-- A path can be walked in two parts, the second from where the first leads. -/
theorem walk_append (tree : FileTree) (place : List Bytes) (front back : List PathStep) :
    tree.walk place (front ++ back) =
      match tree.walk place front with
      | .error error => .error error
      | .ok place => tree.walk place back := by
  induction front generalizing place with
  | nil => rfl
  | cons step rest ih =>
    simp only [List.cons_append, walk]
    cases tree.take place step with
    | error error => rfl
    | ok place => exact ih place

/-- The place that a path means, at which something has to lie. A slash at the end asks for
a directory, as a last step that stays does. -/
def locate (tree : FileTree) (path : FilePath) : Except FileError (List Bytes) :=
  match path.refusal? with
  | some error => .error error
  | none => tree.walk [] (path.steps ++ if path.meansDirectory then [.stay] else [])

def findPath (tree : FileTree) (path : FilePath) : Except FileError FileTree :=
  match tree.locate path with
  | .error error => .error error
  | .ok place => tree.find place

/-- The place of the file that a path asks to write, at which nothing has to lie. What holds
it has to be a directory, and a path that can only mean a directory is no file's. -/
def target (tree : FileTree) (path : FilePath) : Except FileError (List Bytes) :=
  match path.refusal?, path.steps.getLast? with
  | some error, _ => .error error
  | none, some (.down name) =>
    match tree.walk [] (path.steps.dropLast ++ [.stay]) with
    | .error error => .error error
    | .ok place =>
      if path.meansDirectory then .error .isADirectory
      else if FilePath.nameLimit < name.length then .error .nameTooLong
      else .ok (place ++ [name])
  | none, _ =>
    match tree.walk [] path.steps with
    | .error error => .error error
    | .ok _ => .error .isADirectory

def readDirectory (tree : FileTree) (path : FilePath) :
    Except FileError (List (Bytes × FileTree)) :=
  match tree.findPath path with
  | .error error => .error error
  | .ok (.file ..) => .error .notADirectory
  | .ok (.directory entries) => .ok entries

def readPath (tree : FileTree) (path : FilePath) : Except FileError Bytes :=
  match tree.findPath path with
  | .error error => .error error
  | .ok (.directory _) => .error .isADirectory
  | .ok (.file _ bytes) => .ok bytes

def writePath (tree : FileTree) (now : Nat) (path : FilePath) (bytes : Bytes) :
    Except FileError FileTree :=
  match tree.target path with
  | .error error => .error error
  | .ok place => tree.write now bytes place

end FileTree

end TypeAtlas
