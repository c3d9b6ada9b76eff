/-!
# Hexadecimal digits

Lower-case digits, for a number without leading zeros and for a byte in two places.
-/

namespace TypeAtlas.Text

def hexDigitOf (n : Nat) : Char :=
  let d := n % 16
  if d < 10 then Char.ofNat ('0'.toNat + d) else Char.ofNat ('a'.toNat + (d - 10))

def writeHex (n : Nat) : List Char :=
  if n < 16 then [hexDigitOf n] else writeHex (n / 16) ++ [hexDigitOf n]

def writeHexByte (byte : UInt8) : List Char :=
  [hexDigitOf (byte.toNat / 16), hexDigitOf byte.toNat]

def hexDigit? (c : Char) : Option Nat :=
  if '0' ≤ c ∧ c ≤ '9' then some (c.toNat - '0'.toNat)
  else if 'a' ≤ c ∧ c ≤ 'f' then some (c.toNat - 'a'.toNat + 10)
  else none

def hexByte? : List Char → Option UInt8
  | [high, low] => do return UInt8.ofNat (16 * (← hexDigit? high) + (← hexDigit? low))
  | _ => none

theorem hexDigit?_hexDigitOf (n : Nat) : hexDigit? (hexDigitOf n) = some (n % 16) := by
  have h : ∀ d, d < 16 → hexDigit? (hexDigitOf d) = some d := by decide
  have hmod : hexDigitOf n = hexDigitOf (n % 16) := by simp [hexDigitOf]
  rw [hmod]
  exact h (n % 16) (Nat.mod_lt n (by omega))

theorem hexByte?_writeHexByte (byte : UInt8) : hexByte? (writeHexByte byte) = some byte := by
  have hbyte : byte.toNat < 256 := byte.toNat_lt
  have hsplit : 16 * (byte.toNat / 16 % 16) + byte.toNat % 16 = byte.toNat := by omega
  simp only [hexByte?, writeHexByte, hexDigit?_hexDigitOf, Option.bind_eq_bind,
    Option.bind_some, Option.pure_def, hsplit, UInt8.ofNat_toNat]

end TypeAtlas.Text
