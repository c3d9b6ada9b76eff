import TypeAtlas.Registry.LoadError

/-!
# Notes

What the library tells about its work besides its results. Each operation that has
something to tell has a function beside it that lists the notes in order.
-/

namespace TypeAtlas

inductive Note where
  /-- A field was left out because its record type is not in the schema. -/
  | fieldDropped (typeName fieldName fieldType : String)
  | encoded (types tableLength poolLength : Nat)
  | unknownKeyword (keyword : String)
  | widthChanged (earlier later : UInt64)
  /-- A merged type was defined again and keeps its id. -/
  | definitionReplaced (name : String) (id : Nat)
  | emptyBlob
  /-- An entry took the id of an earlier one. -/
  | idTaken (id : Nat) (name : String)
  /-- Bytes follow the type table. -/
  | bytesBehindTable (count : Nat)
  | loaded (types idCapacity : Nat) (copies : Bool)
  | rejected (length : Nat) (error : LoadError)
  /-- A type was to be allocated by a registry that does not hold it. -/
  | foreignRecord (name : String)
  | alreadyLoaded
  deriving DecidableEq, Repr

namespace Note

inductive Level where
  | warning
  | debug
  | trace
  deriving DecidableEq, Repr

def level : Note → Level
  | widthChanged .. | rejected .. => .warning
  | unknownKeyword _ => .trace
  | _ => .debug

def text : Note → String
  | fieldDropped typeName fieldName fieldType =>
    s!"[writer] dropping {typeName}.{fieldName}: record type '{fieldType}' unknown"
  | encoded types tableLength poolLength =>
    s!"[writer] encoded {types} types: table {tableLength} bytes, strings {poolLength} bytes"
  | unknownKeyword keyword => s!"[dump] skipping unknown keyword '{keyword}'"
  | widthChanged earlier later =>
    s!"[merge] pointer width changes from Some({earlier.toNat}) to {later.toNat} bytes"
  | definitionReplaced name id => s!"[merge] '{name}' redefined, keeping id {id}"
  | emptyBlob => "[loader] empty blob, registry has no types"
  | idTaken id name => s!"[loader] type id {id} redefined by '{name}'"
  | bytesBehindTable count => s!"[loader] {count} bytes after the type table (string pool)"
  | loaded types idCapacity copies =>
    s!"[loader] built registry: {types} types, id space {idCapacity}, copy_strings={copies}"
  | rejected length error => s!"[loader] rejected blob of {length} bytes: {error.message}"
  | foreignRecord name => s!"[alloc] '{name}' is not a record of this registry"
  | alreadyLoaded => "[global] registry already loaded, ignoring load request"

end Note

namespace Note.Level

def label : Note.Level → String
  | warning => "WARN"
  | debug => "DEBUG"
  | trace => "TRACE"

end Note.Level

def Note.line (note : Note) : String := s!"{note.level.label} {note.text}"

end TypeAtlas
