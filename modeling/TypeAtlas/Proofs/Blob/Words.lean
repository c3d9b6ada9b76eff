import TypeAtlas.Blob.TypeTable

/-!
# Words and the numbers they stand for

A word of a target shows a number modulo the words that there are. Every number that is kept
in eight bytes on the way is therefore written as it would be without a bound.
-/

namespace TypeAtlas

namespace Bytes

theorem digits_mod (width n : Nat) : digits width (n % wordCount width) = digits width n := by
  induction width generalizing n with
  | zero => rfl
  | succ width ih =>
      have hlow : UInt8.ofNat (n % wordCount (width + 1)) = UInt8.ofNat n := by
        apply UInt8.toNat_inj.mp
        rw [UInt8.toNat_ofNat', UInt8.toNat_ofNat', wordCount, Nat.mod_mul_right_mod]
      have hhigh : n % wordCount (width + 1) / 256 = n / 256 % wordCount width := by
        rw [wordCount, Nat.mod_mul_right_div_self]
      rw [digits, digits, hlow, hhigh, ih]

theorem ofWord_congr {order : ByteOrder} {width m n : Nat}
    (h : m % wordCount width = n % wordCount width) : ofWord order width m = ofWord order width n := by
  rw [ofWord, ofWord, ← digits_mod width m, h, digits_mod]

end Bytes

namespace WordWidth

theorem wordCount_eq (width : WordWidth) :
    Bytes.wordCount width.bytes = match width with
      | four => 4294967296
      | eight => 18446744073709551616 := by
  cases width <;> rfl

/-- A number that is kept in a machine word loses nothing that a word of the target shows. -/
theorem mod_wordCount (width : WordWidth) (n : Nat) :
    n % 18446744073709551616 % Bytes.wordCount width.bytes = n % Bytes.wordCount width.bytes := by
  rw [wordCount_eq]
  cases width with
  | four => exact Nat.mod_mod_of_dvd n (by decide)
  | eight => exact Nat.mod_mod n _

end WordWidth

namespace Target

theorem ofOptions_eq_ok_iff {options : WriterOptions} {target : Target} :
    ofOptions options = .ok target ↔
      options.pointerWidth = UInt64.ofNat target.width.bytes ∧ options.order = target.order := by
  obtain ⟨pointerWidth, order, framed⟩ := options
  obtain ⟨width, other⟩ := target
  unfold ofOptions
  by_cases h4 : pointerWidth = 4
  · subst h4
    cases width <;> simp [WordWidth.bytes]
  · by_cases h8 : pointerWidth = 8
    · subst h8
      cases width <;> simp [WordWidth.bytes]
    · cases width <;> simp [WordWidth.bytes, h4, h8]

@[simp] theorem length_ofNat (target : Target) (n : Nat) :
    (target.ofNat n).length = target.width.bytes := by
  simp [ofNat]

@[simp] theorem length_half (target : Target) (value : UInt32) :
    (target.half value).length = 4 := by
  simp [half]

@[simp] theorem ofNat_mod_size (target : Target) (n : Nat) :
    target.ofNat (n % 18446744073709551616) = target.ofNat n :=
  Bytes.ofWord_congr (target.width.mod_wordCount n)

theorem word_eq_ok_iff {target : Target} {value : UInt64} {bytes : Bytes} :
    target.word value = .ok bytes ↔
      target.Fits value.toNat ∧ bytes = target.ofNat value.toNat := by
  unfold word
  constructor
  · intro h
    split at h
    · next hfits =>
        cases h
        exact ⟨hfits, rfl⟩
    · cases h
  · intro h
    obtain ⟨hfits, rfl⟩ := h
    exact if_pos hfits

/-! ## Signed words -/

def signedNumber (target : Target) (value : Int64) : Nat :=
  (value.toInt % Bytes.wordCount target.width.bytes).toNat

theorem fits_signedNumber (target : Target) (value : Int64) :
    target.Fits (target.signedNumber value) := by
  have hpos := Bytes.wordCount_pos target.width.bytes
  have hlt := Int.emod_lt_of_pos value.toInt (Int.natCast_pos.mpr hpos)
  have hnonneg := Int.emod_nonneg value.toInt (Int.natCast_ne_zero_iff_pos.mpr hpos)
  unfold Fits signedNumber
  omega

theorem toInt_emod (value : Int64) :
    value.toInt % 18446744073709551616 = value.toUInt64.toNat := by
  have hbmod : value.toInt = Int.bmod value.toUInt64.toNat 18446744073709551616 := by
    have h := BitVec.toInt_eq_toNat_bmod value.toBitVec
    rwa [Int64.toInt_toBitVec, Int64.toNat_toBitVec] at h
  have hlt := value.toUInt64.toNat_lt
  rw [Int.bmod_def] at hbmod
  split at hbmod <;> omega

theorem toNat_toUInt64_mod (target : Target) (value : Int64) :
    value.toUInt64.toNat % Bytes.wordCount target.width.bytes = target.signedNumber value := by
  have hmod := toInt_emod value
  rw [signedNumber, target.width.wordCount_eq]
  cases target.width <;> simp only <;> omega

theorem ofNat_toUInt64 (target : Target) (value : Int64) :
    target.ofNat value.toUInt64.toNat = target.ofNat (target.signedNumber value) := by
  apply Bytes.ofWord_congr
  rw [toNat_toUInt64_mod, Nat.mod_eq_of_lt (target.fits_signedNumber value)]

theorem signedWord_eq_ok {target : Target} {value : Int64} {bytes : Bytes}
    (h : target.signedWord value = .ok bytes) :
    bytes = target.ofNat (target.signedNumber value) := by
  rw [← ofNat_toUInt64]
  obtain ⟨width, order⟩ := target
  cases width with
  | four =>
      simp only [signedWord] at h
      split at h
      · cases h
        rfl
      · cases h
  | eight =>
      simp only [signedWord] at h
      cases h
      rfl

end Target

end TypeAtlas
