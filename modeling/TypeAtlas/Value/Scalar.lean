import TypeAtlas.Blob.Header

/-!
# Scalars

The fixed-size numbers that can be stored in the bytes of a field, in the order of the
host. Integers are integers; a floating-point number is the unsigned integer of its bits.
An integer as wide as an address is one of eight bytes.
-/

namespace TypeAtlas

inductive Scalar where
  | u8 | u16 | u32 | u64
  | i8 | i16 | i32 | i64
  | f32 | f64
  deriving DecidableEq, Repr

namespace Scalar

def size : Scalar → Nat
  | u8 | i8 => 1
  | u16 | i16 => 2
  | u32 | i32 | f32 => 4
  | u64 | i64 | f64 => 8

def isSigned : Scalar → Bool
  | i8 | i16 | i32 | i64 => true
  | _ => false

def modulus : Scalar → Nat
  | u8 | i8 => 256
  | u16 | i16 => 65536
  | u32 | i32 | f32 => 4294967296
  | u64 | i64 | f64 => 18446744073709551616

/-- The values that the type of number has. -/
def holds (scalar : Scalar) (value : Int) : Prop :=
  if scalar.isSigned then -(scalar.modulus / 2 : Int) ≤ value ∧ value < (scalar.modulus / 2 : Int)
  else 0 ≤ value ∧ value < scalar.modulus

/-- The bytes of a number, in two's complement. -/
def toBytes (scalar : Scalar) (value : Int) : Bytes :=
  Bytes.ofWord hostOrder scalar.size (value % scalar.modulus).toNat

def ofBytes (scalar : Scalar) (bytes : Bytes) : Int :=
  let word := Bytes.toWord hostOrder bytes
  if scalar.isSigned ∧ scalar.modulus / 2 ≤ word then (word : Int) - scalar.modulus
  else word

@[simp] theorem length_toBytes (scalar : Scalar) (value : Int) :
    (scalar.toBytes value).length = scalar.size := by
  simp [toBytes]

theorem modulus_eq (scalar : Scalar) : scalar.modulus = Bytes.wordCount scalar.size := by
  cases scalar <;> rfl

theorem modulus_pos (scalar : Scalar) : (0 : Int) < scalar.modulus := by
  cases scalar <;> decide

/-- The word under a number is its remainder. -/
theorem toWord_toBytes (scalar : Scalar) (value : Int) :
    (Bytes.toWord hostOrder (scalar.toBytes value) : Int) = value % scalar.modulus := by
  have hnonneg := Int.emod_nonneg value (Int.ne_of_gt scalar.modulus_pos)
  have hlt := Int.emod_lt_of_pos value scalar.modulus_pos
  rw [toBytes, Bytes.toWord_ofWord, ← modulus_eq, Nat.mod_eq_of_lt (by omega)]
  omega

/-- A number that the type holds is read back. -/
theorem ofBytes_toBytes {scalar : Scalar} {value : Int} (h : scalar.holds value) :
    scalar.ofBytes (scalar.toBytes value) = value := by
  have hword := scalar.toWord_toBytes value
  generalize hw : Bytes.toWord hostOrder (scalar.toBytes value) = word at hword
  simp only [ofBytes, hw]
  cases scalar <;>
    simp only [holds, isSigned, modulus, true_and, false_and, if_true, Bool.false_eq_true,
      if_false] at h hword ⊢ <;>
    (try split) <;> omega

end Scalar

end TypeAtlas
