import TypeAtlas.Registry.Load

/-!
# The installed registry

One registry for a whole process. The first load that succeeds installs its registry;
every later load answers with that one and looks at nothing. A load that fails before
leaves the place empty.
-/

namespace TypeAtlas

inductive LoadRequest where
  /-- From bytes that stay, with names copied or not. -/
  | kept (bytes : Bytes) (copies : Bool)
  /-- From bytes that do not stay, so that every name is copied. -/
  | passing (bytes : Bytes) (framing : Framing)
  /-- From the blob that the program was built with. -/
  | linked
  deriving DecidableEq, Repr

namespace LoadRequest

def bytes (linkedBlob : Bytes) : LoadRequest → Bytes
  | kept bytes _ | passing bytes _ => bytes
  | linked => linkedBlob

def options : LoadRequest → LoadOptions
  | kept _ copies => ⟨copies, .detect⟩
  | passing _ framing => ⟨true, framing⟩
  | linked => .standard

/-- The registry that is asked for, in a program that was built with the linked blob. -/
def build (linkedBlob : Bytes) (tag : UInt64) : LoadRequest → Except LoadError Registry
  | kept bytes copies => Registry.load bytes ⟨copies, .detect⟩ tag
  | passing bytes framing => Registry.loadOwned bytes framing tag
  | linked => Registry.load linkedBlob .standard tag

end LoadRequest

structure Installed where
  registry : Option Registry
  /-- The tag of the next registry built. -/
  nextTag : UInt64
  deriving DecidableEq, Repr

namespace Installed

def none : Installed := ⟨.none, 1⟩

def isLoaded (installed : Installed) : Bool := installed.registry.isSome

/-- Answer a request: with the registry installed, or by installing the one asked for. -/
def serve (installed : Installed) (linkedBlob : Bytes) (request : LoadRequest) :
    Except LoadError Registry × Installed :=
  match installed.registry with
  | some registry => (.ok registry, installed)
  | .none =>
    match request.build linkedBlob installed.nextTag with
    | .ok registry => (.ok registry, ⟨some registry, installed.nextTag + 1⟩)
    | .error error => (.error error, installed)

def serveAll (installed : Installed) (linkedBlob : Bytes) : List LoadRequest →
    List (Except LoadError Registry) × Installed
  | [] => ([], installed)
  | request :: rest =>
    let (answer, installed) := installed.serve linkedBlob request
    let (answers, installed) := installed.serveAll linkedBlob rest
    (answer :: answers, installed)

def notes (installed : Installed) (linkedBlob : Bytes) (request : LoadRequest) : List Note :=
  if installed.isLoaded then [.alreadyLoaded]
  else Registry.loadNotes (request.bytes linkedBlob) request.options

def typeByName? (installed : Installed) (name : String) : Option TypeRecord := do
  let registry ← installed.registry
  registry.typeByName? name

end Installed

end TypeAtlas
