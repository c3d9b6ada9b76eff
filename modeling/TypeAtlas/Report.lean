import TypeAtlas.Registry.Load

/-!
# Report

A blob's types as text: one line for each type and one line for each of its members.
-/

namespace TypeAtlas

namespace Report

def padTo (width : Nat) (text : String) : String :=
  text ++ String.ofList (List.replicate (width - text.length) ' ')

def padStart (width : Nat) (text : String) : String :=
  String.ofList (List.replicate (width - text.length) ' ') ++ text

def fieldLine (registry : Registry) (field : Field) : String :=
  let typeName :=
    match registry.typeOfField? field with
    | some ty => ty.name.text
    | none => "?"
  let stars := String.ofList (List.replicate field.pointerDepth.toNat '*')
  "    +" ++ padTo 5 (toString field.offset.toNat) ++ " " ++
    (if field.isConst then "const " else "") ++ typeName ++ stars ++ " " ++ field.name.text ++
    (if field.isArray then s!"[{field.arraySize.toNat}]" else "") ++ "\n"

def enumeratorLine (enumerator : Enumerator) : String :=
  s!"    {enumerator.name.text} = {enumerator.signedValue.toInt}\n"

def typeLines (registry : Registry) (ty : TypeRecord) : String :=
  s!"{ty.id.label} {ty.kind.name} {ty.name.text} (size {ty.size.toNat})\n" ++
    String.join (ty.fields.map (fieldLine registry)) ++
    String.join (ty.enumerators.map enumeratorLine)

inductive Failure where
  | invalidBlob (error : LoadError)
  | typeNotFound (name : String)
  deriving DecidableEq, Repr

def Failure.messages : Failure → List String
  | .invalidBlob error =>
    "Invalid blob" :: error.message :: (error.source?.map BlobError.message).toList
  | .typeNotFound name => [s!"Type '{name}' not found"]

/-- The report on a blob, on all its types or on one. -/
def render (bytes : Bytes) (only : Option String) : Except Failure String :=
  match Registry.loadOwned bytes .detect 1 with
  | .error error => .error (.invalidBlob error)
  | .ok registry =>
    match only with
    | none =>
      .ok (s!"{registry.size} types\n" ++
        String.join (registry.types.map (typeLines registry)))
    | some name =>
      match registry.typeByName? name with
      | some ty => .ok (typeLines registry ty)
      | none => .error (.typeNotFound name)

end Report

end TypeAtlas
