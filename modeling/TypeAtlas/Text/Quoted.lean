import TypeAtlas.Text.Hexadecimal
import TypeAtlas.Text.Unshown

/-!
# Quoted text

How a text that may hold anything is shown inside a message: between double quotes, with
NUL, tab, return, line feed, backslash and the quote written as two characters, and every
character without a shape of its own written by its number.
-/

namespace TypeAtlas.Text

def quoteChar (c : Char) : List Char :=
  if c = '\x00' then ['\\', '0']
  else if c = '\t' then ['\\', 't']
  else if c = '\r' then ['\\', 'r']
  else if c = '\n' then ['\\', 'n']
  else if c = '\\' then ['\\', '\\']
  else if c = '"' then ['\\', '"']
  else if isUnshown c then ['\\', 'u', '\x7b'] ++ writeHex c.toNat ++ ['\x7d']
  else [c]

def quote (text : String) : String :=
  String.ofList ('"' :: text.toList.flatMap quoteChar ++ ['"'])

end TypeAtlas.Text
