import TypeAtlas.Files.Tree

/-!
# Discovery of dumps

Dumps are the files whose name is text with a certain ending, at any depth below a directory.
They come out oldest first, and files of one time in the order of their paths, part by part.
Every directory is read by its path, so one whose path is too long ends the search.
-/

namespace TypeAtlas

/-- A dump with its path below the directory searched. -/
structure FoundDump where
  path : List Bytes
  modified : Nat
  deriving DecidableEq, Repr

def FoundDump.under (name : Bytes) (found : FoundDump) : FoundDump :=
  { found with path := name :: found.path }

namespace Discovery

def suffix : String := ".reflection.dat"

/-- A name that is not text is no dump's. -/
def isDumpName (name : Bytes) : Bool :=
  match Bytes.toString? name with
  | none => false
  | some text => suffix.toList.isSuffixOf text.toList

mutual

/-- The dumps at an entry, whose own path and name are given. A directory is asked for by its
path before its entries are gone through. -/
def dumpsAt (tree : FileTree) (path : FilePath) (name : Bytes) :
    FileTree → Except FileError (List FoundDump)
  | .file modified _ => .ok (if isDumpName name then [⟨[name], modified⟩] else [])
  | .directory entries =>
    match tree.readDirectory path with
    | .error error => .error error
    | .ok _ => (dumpsIn tree path entries).map fun dumps => dumps.map (FoundDump.under name)

def dumpsIn (tree : FileTree) (path : FilePath) :
    List (Bytes × FileTree) → Except FileError (List FoundDump)
  | [] => .ok []
  | (name, entry) :: rest => do
    let here ← dumpsAt tree (path.join name) name entry
    let behind ← dumpsIn tree path rest
    return here ++ behind

end

def nameLt (a b : Bytes) : Bool := a.lex b fun x y => x < y

/-- Paths compared part by part; a path comes before those that go on behind it. -/
def pathLe : List Bytes → List Bytes → Bool
  | [], _ => true
  | _ :: _, [] => false
  | a :: as, b :: bs => if a = b then pathLe as bs else nameLt a b

def earlier (a b : FoundDump) : Bool :=
  if a.modified = b.modified then pathLe a.path b.path else decide (a.modified < b.modified)

def order (found : List FoundDump) : List FoundDump := found.mergeSort earlier

/-- The dumps below a directory, in the order in which they are read. -/
def scan (tree : FileTree) (path : FilePath) : Except FileError (List FoundDump) :=
  match tree.readDirectory path with
  | .error error => .error error
  | .ok entries => (dumpsIn tree path entries).map order

end Discovery

end TypeAtlas
