import TypeAtlas.Schema.Basic
import TypeAtlas.Text.Blank
import TypeAtlas.Text.Decimal

/-!
# Dump directives

A dump is a text of lines, each a keyword with an optional argument behind it. A line is
read on its own, so what it says is one value. A number that is malformed or too large
reads as zero; only for the pointer width does it say nothing at all.
-/

namespace TypeAtlas

inductive Directive where
  | blank
  | arch (width : Option UInt64)
  /-- A type of this kind begins. -/
  | type (kind : TypeKind)
  /-- A field begins. -/
  | field
  /-- An enumerator begins. -/
  | enumerator
  | name (text : String)
  | otherName (text : String)
  | size (value : UInt64)
  | enumeratorName (text : String)
  | enumeratorValue (value : Int64)
  | fieldType (text : String)
  | fieldOffset (value : UInt64)
  | fieldPointers (value : UInt32)
  | fieldArray (value : UInt64)
  | fieldConst (value : Bool)
  | fieldRecord (value : Bool)
  | unknown (keyword : String)
  deriving DecidableEq, Repr

namespace Directive

/-! ## Arguments -/

def word? (argument : List Char) : Option UInt64 :=
  (Text.unsigned? UInt64.size argument).map UInt64.ofNat

def word (argument : List Char) : UInt64 := (word? argument).getD 0

def half (argument : List Char) : UInt32 :=
  UInt32.ofNat ((Text.unsigned? UInt32.size argument).getD 0)

def signed (argument : List Char) : Int64 :=
  Int64.ofInt ((Text.signed? 0x8000000000000000 argument).getD 0)

def flag (argument : List Char) : Bool := argument == ['t', 'r', 'u', 'e']

/-! ## Lines -/

def ofKeyword (keyword : String) (argument : List Char) : Directive :=
  match keyword with
  | "" => blank
  | "arch" => arch (word? argument)
  | "base" => type .base
  | "struct" => type .struct
  | "union" => type .union
  | "enum" => type .enum
  | "field" => field
  | "enumerator" => enumerator
  | "name" => name (String.ofList argument)
  | "alias" => otherName (String.ofList argument)
  | "size" => size (word argument)
  | "ek" => enumeratorName (String.ofList argument)
  | "ev" => enumeratorValue (signed argument)
  | "type" => fieldType (String.ofList argument)
  | "offset" => fieldOffset (word argument)
  | "pdepth" => fieldPointers (half argument)
  | "arrsize" => fieldArray (word argument)
  | "const" => fieldConst (flag argument)
  | "isstruct" => fieldRecord (flag argument)
  | other => unknown other

/-- What a line says once blanks around it are dropped. -/
def ofLine (line : List Char) : Directive :=
  let (keyword, argument) := Text.firstWord (Text.trim line)
  ofKeyword (String.ofList keyword) argument

end Directive

def directives (text : String) : List Directive :=
  (Text.lines text.toList).map Directive.ofLine

end TypeAtlas
