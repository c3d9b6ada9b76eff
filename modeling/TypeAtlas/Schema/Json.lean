import TypeAtlas.Json.Basic
import TypeAtlas.Schema.Basic

/-!
# Schemas as JSON

A schema is an object of its pointer width and its types; every part is written, and every
part but the pointer width has to be there when it is read. Members with other names are
passed over.
-/

namespace TypeAtlas

open Json

/-! ## Writing -/

def FieldDef.toJson (field : FieldDef) : Json :=
  .object [
    ("name", .text field.name),
    ("type_name", .text field.typeName),
    ("offset", .integer field.offset.toNat),
    ("ptr_depth", .integer field.pointerDepth.toNat),
    ("arr_size", .integer field.arraySize.toNat),
    ("is_const", .bool field.isConst),
    ("is_record", .bool field.isRecord)]

def EnumeratorDef.toJson (enumerator : EnumeratorDef) : Json :=
  .object [("name", .text enumerator.name), ("value", .integer enumerator.value.toInt)]

def TypeDef.toJson (ty : TypeDef) : Json :=
  .object [
    ("name", .text ty.name),
    ("kind", .text ty.kind.name),
    ("size", .integer ty.size.toNat),
    ("aliases", .array (ty.aliases.map .text)),
    ("fields", .array (ty.fields.map FieldDef.toJson)),
    ("enumerators", .array (ty.enumerators.map EnumeratorDef.toJson))]

def Schema.toJson (schema : Schema) : Json :=
  .object [
    ("arch", match schema.arch with
      | some width => .integer width.toNat
      | none => .null),
    ("types", .array (schema.types.map TypeDef.toJson))]

/-! ## Reading -/

def TypeKind.ofName? (name : String) : Option TypeKind :=
  if name = "base" then some base
  else if name = "struct" then some struct
  else if name = "union" then some union
  else if name = "enum" then some enum
  else none

def TypeKind.ofJson? (value : Json) : Option TypeKind := value.caseName?.bind TypeKind.ofName?

def FieldDef.ofJson? (value : Json) : Option FieldDef := do
  match ← value.parts? ["name", "type_name", "offset", "ptr_depth", "arr_size", "is_const",
      "is_record"] with
  | [some name, some typeName, some offset, some pointerDepth, some arraySize, some isConst,
      some isRecord] =>
    return {
      name := ← name.text?
      typeName := ← typeName.text?
      offset := ← offset.word?
      pointerDepth := ← pointerDepth.half?
      arraySize := ← arraySize.word?
      isConst := ← isConst.bool?
      isRecord := ← isRecord.bool? }
  | _ => none

def EnumeratorDef.ofJson? (value : Json) : Option EnumeratorDef := do
  match ← value.parts? ["name", "value"] with
  | [some name, some number] => return { name := ← name.text?, value := ← number.signed? }
  | _ => none

def TypeDef.ofJson? (value : Json) : Option TypeDef := do
  match ← value.parts? ["name", "kind", "size", "aliases", "fields", "enumerators"] with
  | [some name, some kind, some size, some aliases, some fields, some enumerators] =>
    return {
      name := ← name.text?
      kind := ← TypeKind.ofJson? kind
      size := ← size.word?
      aliases := ← aliases.list? text?
      fields := ← fields.list? FieldDef.ofJson?
      enumerators := ← enumerators.list? EnumeratorDef.ofJson? }
  | _ => none

/-- The pointer width, which may be missing or null. -/
def Schema.archOfJson? : Option Json → Option (Option UInt64)
  | none | some .null => some none
  | some value => value.word?.map some

def Schema.ofJson? (value : Json) : Option Schema := do
  match ← value.parts? ["arch", "types"] with
  | [arch, some types] =>
    return { arch := ← Schema.archOfJson? arch, types := ← types.list? TypeDef.ofJson? }
  | _ => none

end TypeAtlas
