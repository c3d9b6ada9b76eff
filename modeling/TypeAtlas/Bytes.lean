/-!
# Bytes and machine words

Byte strings are lists of octets. Two codecs live here: fixed-width words, whose digits
are written in base 256 in either byte order, and text in UTF-8. Each has its round trip
beside it, since every layout of the library is built from these two.
-/

namespace TypeAtlas

abbrev Bytes := List UInt8

inductive ByteOrder where
  | little
  | big
  deriving DecidableEq, Repr, Inhabited

namespace ByteOrder

/-- Turn a little-endian digit string into this order, and back. -/
def arrange : ByteOrder → Bytes → Bytes
  | .little, bytes => bytes
  | .big, bytes => bytes.reverse

@[simp] theorem arrange_arrange (order : ByteOrder) (bytes : Bytes) :
    order.arrange (order.arrange bytes) = bytes := by
  cases order <;> simp [arrange]

@[simp] theorem length_arrange (order : ByteOrder) (bytes : Bytes) :
    (order.arrange bytes).length = bytes.length := by
  cases order <;> simp [arrange]

end ByteOrder

namespace Bytes

/-! ## Words -/

def wordCount : Nat → Nat
  | 0 => 1
  | width + 1 => 256 * wordCount width

theorem wordCount_pos (width : Nat) : 0 < wordCount width := by
  induction width with
  | zero => decide
  | succ width ih => simp only [wordCount]; omega

/-- The `width` lowest digits of `n` in base 256, least significant first. -/
def digits : Nat → Nat → Bytes
  | 0, _ => []
  | width + 1, n => UInt8.ofNat n :: digits width (n / 256)

def value : Bytes → Nat
  | [] => 0
  | digit :: rest => digit.toNat + 256 * value rest

@[simp] theorem length_digits (width n : Nat) : (digits width n).length = width := by
  induction width generalizing n with
  | zero => rfl
  | succ width ih => simp [digits, ih]

theorem value_lt (bytes : Bytes) : value bytes < wordCount bytes.length := by
  induction bytes with
  | nil => simp [value, wordCount]
  | cons digit rest ih =>
    have hd : digit.toNat < 256 := digit.toNat_lt
    simp only [value, List.length_cons, wordCount]
    omega

theorem value_digits (width n : Nat) : value (digits width n) = n % wordCount width := by
  induction width generalizing n with
  | zero => simp [digits, value, wordCount, Nat.mod_one]
  | succ width ih =>
    have hmod : n % wordCount (width + 1) = n % 256 + 256 * (n / 256 % wordCount width) := by
      rw [wordCount, Nat.mod_mul]
    simp [digits, value, ih, hmod]

theorem digits_value (bytes : Bytes) : digits bytes.length (value bytes) = bytes := by
  induction bytes with
  | nil => rfl
  | cons digit rest ih =>
    have hd : digit.toNat < 256 := digit.toNat_lt
    have hquot : (digit.toNat + 256 * value rest) / 256 = value rest := by omega
    have hdigit : UInt8.ofNat (digit.toNat + 256 * value rest) = digit := by
      apply UInt8.toNat_inj.mp
      simp only [UInt8.toNat_ofNat']
      omega
    simp [digits, value, hquot, hdigit, ih]

/-- The word `n` in `width` bytes; digits beyond the width are dropped. -/
def ofWord (order : ByteOrder) (width n : Nat) : Bytes :=
  order.arrange (digits width n)

def toWord (order : ByteOrder) (bytes : Bytes) : Nat :=
  value (order.arrange bytes)

@[simp] theorem length_ofWord (order : ByteOrder) (width n : Nat) :
    (ofWord order width n).length = width := by
  simp [ofWord]

theorem toWord_ofWord (order : ByteOrder) (width n : Nat) :
    toWord order (ofWord order width n) = n % wordCount width := by
  simp [toWord, ofWord, value_digits]

theorem toWord_lt (order : ByteOrder) (bytes : Bytes) :
    toWord order bytes < wordCount bytes.length := by
  simpa [toWord] using value_lt (order.arrange bytes)

theorem ofWord_toWord (order : ByteOrder) (bytes : Bytes) :
    ofWord order bytes.length (toWord order bytes) = bytes := by
  have h := digits_value (order.arrange bytes)
  rw [ByteOrder.length_arrange] at h
  simp [ofWord, toWord, h]

/-! ## Text -/

def ofString (text : String) : Bytes :=
  text.toByteArray.data.toList

def toString? (bytes : Bytes) : Option String :=
  String.fromUTF8? ⟨bytes.toArray⟩

@[simp] theorem toString?_ofString (text : String) :
    toString? (ofString text) = some text := by
  have h : (⟨(ofString text).toArray⟩ : ByteArray) = text.toByteArray := by
    simp [ofString]
  simp only [toString?, h, String.fromUTF8?, text.isValidUTF8, dite_true]
  rfl

theorem ofString_toString? {bytes : Bytes} {text : String}
    (h : toString? bytes = some text) : ofString text = bytes := by
  unfold toString? String.fromUTF8? at h
  split at h
  · cases h
    simp [ofString, String.fromUTF8]
  · cases h

theorem ofString_injective {s t : String} (h : ofString s = ofString t) : s = t := by
  have hs := toString?_ofString s
  rw [h, toString?_ofString t] at hs
  exact (Option.some.inj hs).symm

/-- A text is the bytes of its characters in order. -/
theorem ofString_eq (text : String) :
    ofString text = text.toList.flatMap String.utf8EncodeChar := by
  rw [ofString, ← String.utf8Encode_toList]
  simp [List.utf8Encode]

theorem zero_mem_utf8EncodeChar (c : Char) : 0 ∈ String.utf8EncodeChar c ↔ c = '\x00' := by
  have hzero : ∀ n, n < 256 → (0 : UInt8) = UInt8.ofNat n → n = 0 := by
    intro n hn h
    have hnat := congrArg UInt8.toNat h
    simp only [UInt8.toNat_ofNat'] at hnat
    have h0 : UInt8.toNat 0 = 0 := rfl
    omega
  constructor
  · intro h
    apply Char.ext
    apply UInt32.toNat_inj.mp
    have hgoal : ('\x00' : Char).val.toNat = 0 := rfl
    rw [hgoal]
    unfold String.utf8EncodeChar at h
    simp only at h
    split at h
    · exact hzero c.val.toNat (by omega) (List.mem_singleton.mp h)
    · split at h
      · simp only [List.mem_cons, List.not_mem_nil, or_false] at h
        rcases h with h | h
        all_goals have := hzero _ (by omega) h; omega
      · split at h
        · simp only [List.mem_cons, List.not_mem_nil, or_false] at h
          rcases h with h | h | h
          all_goals have := hzero _ (by omega) h; omega
        · simp only [List.mem_cons, List.not_mem_nil, or_false] at h
          rcases h with h | h | h | h
          all_goals have := hzero _ (by omega) h; omega
  · rintro rfl
    decide

/-- Only the NUL character has a NUL byte in its form. -/
theorem zero_mem_ofString (text : String) : 0 ∈ ofString text ↔ '\x00' ∈ text.toList := by
  simp [ofString_eq, zero_mem_utf8EncodeChar]

/-- A text stands at an offset and is closed by the first NUL behind it. -/
def TextAt (bytes : Bytes) (offset : Nat) (text : String) : Prop :=
  '\x00' ∉ text.toList ∧ ∃ behind, bytes.drop offset = ofString text ++ 0 :: behind

/-- What stands before the first NUL, if there is one and it is well formed, is the text. -/
theorem textAt_iff {bytes : Bytes} {offset : Nat} {text : String} :
    TextAt bytes offset text ↔
      0 ∈ bytes.drop offset ∧
        toString? ((bytes.drop offset).takeWhile (· != 0)) = some text := by
  constructor
  · rintro ⟨hplain, behind, hbytes⟩
    have hfront : ∀ byte ∈ ofString text, (byte != 0) = true := by
      intro byte hmem
      by_cases hbyte : byte = 0
      · subst hbyte
        exact absurd ((zero_mem_ofString text).mp hmem) hplain
      · simp [hbyte]
    have htake : (ofString text ++ 0 :: behind).takeWhile (· != 0) = ofString text := by
      rw [List.takeWhile_append_of_pos hfront]
      simp
    rw [hbytes, htake]
    exact ⟨by simp, toString?_ofString text⟩
  · rintro ⟨hzero, htext⟩
    have hform := ofString_toString? htext
    have hsplit := List.takeWhile_append_dropWhile (p := (· != 0)) (l := bytes.drop offset)
    have hall := List.all_eq_true.mp (List.all_takeWhile (p := (· != 0)) (l := bytes.drop offset))
    have hplain : '\x00' ∉ text.toList := by
      rw [← zero_mem_ofString, hform]
      intro hmem
      simpa using hall 0 hmem
    have hhead := List.head?_dropWhile_not (· != 0) (bytes.drop offset)
    cases hdrop : (bytes.drop offset).dropWhile (· != 0) with
    | nil =>
      rw [hdrop, List.append_nil] at hsplit
      rw [hsplit] at hall
      simpa using hall 0 hzero
    | cons byte behind =>
      rw [hdrop] at hhead
      have hbyte : byte = 0 := by simpa using hhead
      rw [hdrop, hbyte] at hsplit
      refine ⟨hplain, behind, ?_⟩
      rw [hform, hsplit]

end Bytes

end TypeAtlas
