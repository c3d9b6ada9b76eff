import TypeAtlas.Text.Hexadecimal
import TypeAtlas.Text.Decimal

/-!
# JSON

JSON values, and their printed form on many lines: two blanks to a level, one item or
member to a line, and nothing between the brackets of an empty array or object.
-/

namespace TypeAtlas

inductive Json where
  | null
  | bool (value : Bool)
  | integer (value : Int)
  /-- A number that is written as no integer, by its text. -/
  | real (literal : String)
  | text (value : String)
  | array (items : List Json)
  | object (members : List (String × Json))
  deriving Inhabited

namespace Json

/-! ## Printing -/

def escapeChar (c : Char) : List Char :=
  if c = '"' then ['\\', '"']
  else if c = '\\' then ['\\', '\\']
  else if c = '\n' then ['\\', 'n']
  else if c = '\r' then ['\\', 'r']
  else if c = '\t' then ['\\', 't']
  else if c = '\x08' then ['\\', 'b']
  else if c = '\x0c' then ['\\', 'f']
  else if c.toNat < 0x20 then
    ['\\', 'u', '0', '0', Text.hexDigitOf (c.toNat / 16), Text.hexDigitOf c.toNat]
  else [c]

def printText (text : String) : List Char :=
  '"' :: text.toList.flatMap escapeChar ++ ['"']

def newLine (level : Nat) : List Char := '\n' :: List.replicate (2 * level) ' '

mutual

def printAt (level : Nat) : Json → List Char
  | null => "null".toList
  | bool value => (if value then "true" else "false").toList
  | integer value => Text.writeInt value
  | real literal => literal.toList
  | text value => printText value
  | array [] => "[]".toList
  | array (first :: rest) =>
    '[' :: newLine (level + 1) ++ printAt (level + 1) first ++ printItems (level + 1) rest ++
      newLine level ++ [']']
  | object [] => ['\x7b', '\x7d']
  | object ((name, first) :: rest) =>
    '\x7b' :: newLine (level + 1) ++ printText name ++ [':', ' '] ++
      printAt (level + 1) first ++ printMembers (level + 1) rest ++ newLine level ++ ['\x7d']

def printItems (level : Nat) : List Json → List Char
  | [] => []
  | item :: rest => ',' :: newLine level ++ printAt level item ++ printItems level rest

def printMembers (level : Nat) : List (String × Json) → List Char
  | [] => []
  | (name, value) :: rest =>
    ',' :: newLine level ++ printText name ++ [':', ' '] ++ printAt level value ++
      printMembers level rest

end

def print (value : Json) : String := String.ofList (printAt 0 value)

/-! ## Reading -/

def text? : Json → Option String
  | text value => some value
  | _ => none

def bool? : Json → Option Bool
  | bool value => some value
  | _ => none

/-- An integer in `[low, high)`. -/
def integer? (low high : Int) : Json → Option Int
  | integer value => if low ≤ value ∧ value < high then some value else none
  | _ => none

def word? (value : Json) : Option UInt64 :=
  (value.integer? 0 UInt64.size).map fun n => UInt64.ofNat n.toNat

def half? (value : Json) : Option UInt32 :=
  (value.integer? 0 UInt32.size).map fun n => UInt32.ofNat n.toNat

def signed? (value : Json) : Option Int64 :=
  (value.integer? (-0x8000000000000000) 0x8000000000000000).map Int64.ofInt

def list? (read : Json → Option α) : Json → Option (List α)
  | array items => items.mapM read
  | _ => none

/-- The last member of a name. -/
def member? (name : String) (members : List (String × Json)) : Option Json :=
  (members.reverse.find? (·.1 = name)).map (·.2)

/-- The parts of a record with the given names: the members of an object, each of which may
be missing, or an array that lists all of them in order. -/
def parts? (names : List String) : Json → Option (List (Option Json))
  | object members => some (names.map fun name => member? name members)
  | array items => if items.length = names.length then some (items.map some) else none
  | _ => none

/-- One of some bare names: the name itself, or an object of one null member of that name. -/
def caseName? : Json → Option String
  | text name => some name
  | object [(name, null)] => some name
  | _ => none

end Json

end TypeAtlas
