import TypeAtlas.Blob.Layout
import TypeAtlas.Blob.TypeTable

/-!
# What a blob says of a schema

The type table that stands for a schema, and the pool of its names, stated without writing
a byte: which names are written, where each of them comes to stand, and what number every
word of the table holds.
-/

namespace TypeAtlas

/-- The fields of a type without those of a record type that the schema does not know. -/
def TypeDef.fieldsWithin (schema : Schema) (ty : TypeDef) : List FieldDef :=
  ty.fields.filter fun field =>
    !(field.isRecord && schema.types.all fun other => other.name != field.typeName)

namespace Schema

/-- The id of the type of a field, 0 for a type that the schema does not know. -/
def fieldTypeId (schema : Schema) (field : FieldDef) : Nat :=
  (schema.id? field.typeName).getD 0

/-! ## Names -/

def entryNames (schema : Schema) (ty : TypeDef) : List String :=
  ty.name :: match ty.kind with
  | .base => []
  | .struct | .union => (ty.fieldsWithin schema).map (·.name)
  | .enum => ty.enumerators.map (·.name)

/-- The names in the type table, in the order in which they are written. -/
def writtenNames (schema : Schema) : List String := schema.types.flatMap schema.entryNames

/-- Texts one behind the other, each closed by a NUL. -/
def pooled (names : List String) : Bytes := names.flatMap fun name => Bytes.ofString name ++ [0]

/-- The names of a schema, each once, where it is first written. -/
def poolBytes (schema : Schema) : Bytes := pooled schema.writtenNames.eraseDups

def poolOffset (schema : Schema) (name : String) : Nat :=
  (pooled (schema.writtenNames.eraseDups.takeWhile (· ≠ name))).length

/-! ## Lengths -/

def entryLength (schema : Schema) (width : Nat) (ty : TypeDef) : Nat :=
  3 * width + 1 + match ty.kind with
  | .base => 0
  | .struct | .union => width + (ty.fieldsWithin schema).length * (4 * width + 1 + 4)
  | .enum => width + ty.enumerators.length * (2 * width)

def tableLength (schema : Schema) (width : Nat) : Nat :=
  width + (schema.types.map (schema.entryLength width)).foldr (· + ·) 0

/-! ## The table -/

/-- The word that stands for a name: its offset in the payload. -/
def nameWord (schema : Schema) (width : Nat) (name : String) : Nat :=
  schema.tableLength width + schema.poolOffset name

def tableField (schema : Schema) (width : Nat) (field : FieldDef) : TableField where
  name := schema.nameWord width field.name
  flag := if field.isConst then 1 else 0
  pointerDepth := field.pointerDepth
  offset := field.offset.toNat
  arraySize := field.arraySize.toNat
  typeId := schema.fieldTypeId field

/-- An enumerator with its value modulo the words that there are. -/
def tableEnumerator (schema : Schema) (width : Nat) (enumerator : EnumeratorDef) :
    TableEnumerator where
  name := schema.nameWord width enumerator.name
  value := (enumerator.value.toInt % Bytes.wordCount width).toNat

def tableShape (schema : Schema) (width : Nat) (ty : TypeDef) : TableShape :=
  match ty.kind with
  | .base => .base
  | .struct => .struct ((ty.fieldsWithin schema).map (schema.tableField width))
  | .union => .union ((ty.fieldsWithin schema).map (schema.tableField width))
  | .enum => .enum (ty.enumerators.map (schema.tableEnumerator width))

def tableEntry (schema : Schema) (width : Nat) (ty : TypeDef) (id : Nat) : TableEntry where
  id := id
  name := schema.nameWord width ty.name
  size := ty.size.toNat
  shape := schema.tableShape width ty

def typeTable (schema : Schema) (width : Nat) : TypeTable where
  entries := schema.types.zipIdx.map fun (ty, position) =>
    schema.tableEntry width ty (position + 1)

end Schema

end TypeAtlas
