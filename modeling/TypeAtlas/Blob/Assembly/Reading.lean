import TypeAtlas.Blob.Assembly
import TypeAtlas.Text.Blank

/-!
# Reading assembly source

The bytes that the byte directives of a source text give, line by line. A directive as it
is rendered gives its row back.
-/

namespace TypeAtlas.Assembly

/-- What stands behind the keyword, if a line is a byte directive. -/
def operands? (line : List Char) : Option (List Char) :=
  let text := Text.trim line
  if ".byte ".toList.isPrefixOf text then some (text.drop 6) else none

def cutAtCommas : List Char → List (List Char)
  | [] => [[]]
  | ',' :: ' ' :: rest => [] :: cutAtCommas rest
  | c :: rest =>
    match cutAtCommas rest with
    | [] => [[c]]
    | first :: more => (c :: first) :: more

def operand? : List Char → Option UInt8
  | '0' :: 'x' :: digits => Text.hexByte? digits
  | _ => none

def row? (operands : List Char) : Option Bytes := (cutAtCommas operands).mapM operand?

def directives (text : String) : List (List Char) :=
  (Text.lines text.toList).filterMap operands?

/-- The bytes that all byte directives of a text give, if each of them can be read. -/
def read? (text : String) : Option Bytes := ((directives text).mapM row?).map List.flatten

/-! ## Directives read back -/

theorem toList_operand (byte : UInt8) :
    (operand byte).toList = '0' :: 'x' :: Text.writeHexByte byte := by
  simp [operand]

theorem operand?_operand (byte : UInt8) : operand? (operand byte).toList = some byte := by
  rw [toList_operand]
  exact Text.hexByte?_writeHexByte byte

theorem cutAtCommas_append {front : List Char} (h : ',' ∉ front) (back : List Char) :
    cutAtCommas (front ++ ',' :: ' ' :: back) = front :: cutAtCommas back := by
  induction front with
  | nil => simp [cutAtCommas]
  | cons c rest ih =>
    have hc : c ≠ ',' := by
      intro hcomma
      exact h (by simp [hcomma])
    have hrest := ih fun hmem => h (List.mem_cons_of_mem c hmem)
    simp [cutAtCommas, hc, hrest]

theorem cutAtCommas_of_not_mem {text : List Char} (h : ',' ∉ text) :
    cutAtCommas text = [text] := by
  induction text with
  | nil => rfl
  | cons c rest ih =>
    have hc : c ≠ ',' := by
      intro hcomma
      exact h (by simp [hcomma])
    have hrest := ih fun hmem => h (List.mem_cons_of_mem c hmem)
    simp [cutAtCommas, hc, hrest]

theorem comma_not_mem_operand (byte : UInt8) : ',' ∉ (operand byte).toList := by
  have hdigit : ∀ n, ',' ≠ Text.hexDigitOf n := by
    intro n hcomma
    have hread := Text.hexDigit?_hexDigitOf n
    rw [← hcomma] at hread
    exact absurd hread (by simp [Text.hexDigit?])
  rw [toList_operand]
  simp [Text.writeHexByte, hdigit]

theorem cutAtCommas_intercalate (byte : UInt8) (rest : Bytes) :
    cutAtCommas (", ".intercalate ((byte :: rest).map operand)).toList =
      (byte :: rest).map fun byte => (operand byte).toList := by
  induction rest generalizing byte with
  | nil => simp [cutAtCommas_of_not_mem (comma_not_mem_operand byte)]
  | cons next rest ih =>
    have hrest := ih next
    simp only [List.map_cons, String.intercalate_cons_cons, String.toList_append,
      List.append_assoc] at hrest ⊢
    rw [← hrest]
    exact cutAtCommas_append (comma_not_mem_operand byte) _

/-- The operands that are rendered for a row give the row. -/
theorem row?_intercalate (byte : UInt8) (rest : Bytes) :
    row? (", ".intercalate ((byte :: rest).map operand)).toList = some (byte :: rest) := by
  rw [row?, cutAtCommas_intercalate]
  generalize byte :: rest = row
  induction row with
  | nil => rfl
  | cons first others ih =>
    rw [List.map_cons, List.mapM_cons, operand?_operand, ih]
    rfl

end TypeAtlas.Assembly
