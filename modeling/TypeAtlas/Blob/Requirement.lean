import TypeAtlas.Blob.Content

/-!
# What a schema asks of a target

The conditions under which a schema can be written, in the order in which they are tested:
a name must hold no character that would end it, and every number must fit the words of the
target. The numbers are those of the documented layout, so nothing has to be written to say
whether a schema is writable, or why it is not.
-/

namespace TypeAtlas

inductive Requirement where
  /-- A name holds no character that would end it. -/
  | plain (name : String)
  /-- A machine word fits a word of the target. -/
  | fits (word : UInt64)
  /-- A signed number fits a word of the target, be it as an unsigned one. -/
  | fitsSigned (value : Int64)
  deriving DecidableEq, Repr

namespace Requirement

/-- Words of eight bytes hold everything. -/
def Met (width : WordWidth) : Requirement → Prop
  | plain name => '\x00' ∉ name.toList
  | fits word => width = .four → word.toNat < 4294967296
  | fitsSigned value =>
    width = .four → -2147483648 ≤ value.toInt ∧ value.toInt < 4294967296

instance decidableMet (width : WordWidth) : DecidablePred (Met width)
  | plain name => inferInstanceAs (Decidable ('\x00' ∉ name.toList))
  | fits word => inferInstanceAs (Decidable (width = .four → word.toNat < 4294967296))
  | fitsSigned value => inferInstanceAs (Decidable
      (width = .four → -2147483648 ≤ value.toInt ∧ value.toInt < 4294967296))

/-- What is reported when the requirement is not met; only words of four bytes overflow. -/
def fault : Requirement → BlobError
  | plain name => .interiorNul name
  | fits word => .valueOverflow word 4
  | fitsSigned value => .valueOverflow value.toUInt64 4

def firstUnmet? (width : WordWidth) (requirements : List Requirement) : Option Requirement :=
  requirements.find? fun requirement => !decide (requirement.Met width)

end Requirement

namespace Schema

/-! ## Requirements in the order of the table -/

/-- A name is looked at before the word that says where it stands. -/
def nameRequirements (schema : Schema) (width : WordWidth) (name : String) : List Requirement :=
  [.plain name, .fits (UInt64.ofNat (schema.nameWord width.bytes name))]

def fieldRequirements (schema : Schema) (width : WordWidth) (field : FieldDef) :
    List Requirement :=
  schema.nameRequirements width field.name ++
    [.fits field.offset, .fits field.arraySize, .fits (UInt64.ofNat (schema.fieldTypeId field))]

def enumeratorRequirements (schema : Schema) (width : WordWidth) (enumerator : EnumeratorDef) :
    List Requirement :=
  schema.nameRequirements width enumerator.name ++ [.fitsSigned enumerator.value]

def memberRequirements (schema : Schema) (width : WordWidth) (ty : TypeDef) :
    List Requirement :=
  match ty.kind with
  | .base => []
  | .struct | .union =>
    .fits (UInt64.ofNat (ty.fieldsWithin schema).length) ::
      (ty.fieldsWithin schema).flatMap (schema.fieldRequirements width)
  | .enum =>
    .fits (UInt64.ofNat ty.enumerators.length) ::
      ty.enumerators.flatMap (schema.enumeratorRequirements width)

def entryRequirements (schema : Schema) (width : WordWidth) (ty : TypeDef) (id : Nat) :
    List Requirement :=
  .fits (UInt64.ofNat id) :: (schema.nameRequirements width ty.name ++
    .fits ty.size :: schema.memberRequirements width ty)

def requirements (schema : Schema) (width : WordWidth) : List Requirement :=
  .fits (UInt64.ofNat schema.types.length) :: schema.types.zipIdx.flatMap fun (ty, position) =>
    schema.entryRequirements width ty (position + 1)

/-! ## Writable schemas -/

/-- A property of every number that the table of a schema shows, the values of enumerators
apart. Only the names and members that are written count. -/
structure EveryNumber (schema : Schema) (width : WordWidth) (p : Nat → Prop) : Prop where
  typeCount : p schema.types.length
  ids : ∀ position < schema.types.length, p (position + 1)
  names : ∀ name ∈ schema.writtenNames, p (schema.nameWord width.bytes name)
  sizes : ∀ ty ∈ schema.types, p ty.size.toNat
  fieldCounts : ∀ ty ∈ schema.types, ty.kind.hasFields → p (ty.fieldsWithin schema).length
  fields : ∀ ty ∈ schema.types, ty.kind.hasFields → ∀ field ∈ ty.fieldsWithin schema,
    p field.offset.toNat ∧ p field.arraySize.toNat ∧ p (schema.fieldTypeId field)
  enumeratorCounts : ∀ ty ∈ schema.types, ty.kind = .enum → p ty.enumerators.length

structure Writable (schema : Schema) (width : WordWidth) : Prop where
  plain : ∀ name ∈ schema.writtenNames, '\x00' ∉ name.toList
  /-- The numbers are those of machine words. -/
  words : width = .four →
    schema.EveryNumber width fun number => (UInt64.ofNat number).toNat < 4294967296
  values : width = .four → ∀ ty ∈ schema.types, ty.kind = .enum →
    ∀ enumerator ∈ ty.enumerators,
      -2147483648 ≤ enumerator.value.toInt ∧ enumerator.value.toInt < 4294967296

end Schema

def Target.options (target : Target) (framed : Bool) : WriterOptions :=
  ⟨UInt64.ofNat target.width.bytes, target.order, framed⟩

end TypeAtlas
