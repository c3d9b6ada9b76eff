import TypeAtlas.Bytes

/-!
# Bytes for a reader

Bytes that need not be text are shown as text all the same. Characters stand for themselves, and
each longest beginning of a character that breaks off is shown as one replacement character.
-/

namespace TypeAtlas.Bytes

def isFurther (byte : UInt8) : Bool := 0x80 ≤ byte && byte ≤ 0xBF

def furtherCount (first : UInt8) : Nat :=
  if first < 0xC2 ∨ 0xF4 < first then 0
  else if first < 0xE0 then 1
  else if first < 0xF0 then 2
  else 3

/-- Does no character begin with the two bytes? It would have a shorter form, or be a half of a
pair, or lie behind the last character. -/
def excludes (first second : UInt8) : Bool :=
  (first == 0xE0 && second < 0xA0) || (first == 0xED && 0xA0 ≤ second) ||
    (first == 0xF0 && second < 0x90) || (first == 0xF4 && 0x90 ≤ second)

/-- What stands behind the first byte of a character, as far as the character goes on. -/
def furtherBytes (first : UInt8) (rest : Bytes) : Bytes :=
  if rest.head?.any (excludes first) then []
  else (rest.takeWhile isFurther).take (furtherCount first)

/-- The characters shown for bytes of which some in front are shown already. -/
def readableBehind : Nat → Bytes → List Char
  | _, [] => []
  | shown + 1, _ :: rest => readableBehind shown rest
  | 0, first :: rest =>
    let further := furtherBytes first rest
    ((toString? (first :: further)).getD "\ufffd").toList ++ readableBehind further.length rest

def readable (bytes : Bytes) : String := String.ofList (readableBehind 0 bytes)

/-! ## Text is shown as it is -/

theorem readableBehind_append (front rest : Bytes) :
    readableBehind front.length (front ++ rest) = readableBehind 0 rest := by
  induction front with
  | nil => rfl
  | cons byte front ih => exact ih

theorem furtherBytes_append {first : UInt8} {further : Bytes}
    (hcount : furtherCount first = further.length) (hfurther : further.all isFurther = true)
    (hsecond : further.head?.any (excludes first) = false) (rest : Bytes) :
    furtherBytes first (further ++ rest) = further := by
  have htake : ((further ++ rest).takeWhile isFurther).take (furtherCount first) = further := by
    rw [List.takeWhile_append_of_pos (List.all_eq_true.mp hfurther), hcount, List.take_left]
  cases further with
  | nil =>
    -- Nothing goes on behind a character of one byte, whatever follows it.
    rw [furtherBytes, htake]
    split <;> rfl
  | cons second more =>
    rw [furtherBytes, htake, List.cons_append, List.head?_cons]
    rw [List.head?_cons] at hsecond
    rw [hsecond]
    rfl

theorem isFurther_ofNat (n : Nat) : isFurther (UInt8.ofNat (n % 64 + 128)) = true := by
  simp only [isFurther, UInt8.le_iff_toNat_le, UInt8.toNat_ofNat', Bool.and_eq_true,
    decide_eq_true_eq]
  have hlow : (0x80 : UInt8).toNat = 128 := rfl
  have hhigh : (0xBF : UInt8).toNat = 191 := rfl
  omega

theorem excludes_eq_false {first second : UInt8}
    (hshort : first.toNat = 0xE0 → 0xA0 ≤ second.toNat)
    (hpair : first.toNat = 0xED → second.toNat < 0xA0)
    (hshorter : first.toNat = 0xF0 → 0x90 ≤ second.toNat)
    (hlast : first.toNat = 0xF4 → second.toNat < 0x90) : excludes first second = false := by
  simpa [excludes, ← UInt8.toNat_inj, UInt8.le_iff_toNat_le, UInt8.lt_iff_toNat_lt, and_assoc]
    using And.intro hshort (And.intro hpair (And.intro hshorter hlast))

theorem furtherCount_eq (first : UInt8) :
    furtherCount first =
      if first.toNat < 0xC2 ∨ 0xF4 < first.toNat then 0
      else if first.toNat < 0xE0 then 1
      else if first.toNat < 0xF0 then 2
      else 3 := by
  simp only [furtherCount, UInt8.lt_iff_toNat_lt]
  rfl

/-- A character goes on to its last byte, whatever stands behind it. -/
theorem exists_furtherBytes (c : Char) :
    ∃ first further, String.utf8EncodeChar c = first :: further ∧
      ∀ rest, furtherBytes first (further ++ rest) = further := by
  have hvalid := c.valid
  have hbyte : ∀ n, (UInt8.ofNat n).toNat = n % 256 := fun n => UInt8.toNat_ofNat'
  simp only [UInt32.isValidChar, Nat.isValidChar] at hvalid
  unfold String.utf8EncodeChar
  generalize c.val.toNat = v at hvalid
  simp only
  split
  · refine ⟨_, _, rfl, furtherBytes_append ?_ rfl rfl⟩
    rw [furtherCount_eq, hbyte, if_pos (by omega)]
    rfl
  · split
    · refine ⟨_, _, rfl, furtherBytes_append ?_ ?_ ?_⟩
      · rw [furtherCount_eq, hbyte, if_neg (by omega), if_pos (by omega)]
        rfl
      · simp only [List.all_cons, List.all_nil, isFurther_ofNat, Bool.and_true]
      · apply excludes_eq_false <;> simp only [hbyte] <;> omega
    · split
      · refine ⟨_, _, rfl, furtherBytes_append ?_ ?_ ?_⟩
        · rw [furtherCount_eq, hbyte, if_neg (by omega), if_neg (by omega), if_pos (by omega)]
          rfl
        · simp only [List.all_cons, List.all_nil, isFurther_ofNat, Bool.and_true]
        · apply excludes_eq_false <;> simp only [hbyte] <;> omega
      · refine ⟨_, _, rfl, furtherBytes_append ?_ ?_ ?_⟩
        · rw [furtherCount_eq, hbyte, if_neg (by omega), if_neg (by omega), if_neg (by omega)]
          rfl
        · simp only [List.all_cons, List.all_nil, isFurther_ofNat, Bool.and_true]
        · apply excludes_eq_false <;> simp only [hbyte] <;> omega

theorem readableBehind_flatMap (text : List Char) :
    readableBehind 0 (text.flatMap String.utf8EncodeChar) = text := by
  induction text with
  | nil => rfl
  | cons c rest ih =>
    obtain ⟨first, further, hform, hfurther⟩ := exists_furtherBytes c
    have hshown : toString? (first :: further) = some (String.singleton c) := by
      rw [← toString?_ofString, ofString_eq, String.toList_singleton]
      simp [hform]
    rw [List.flatMap_cons, hform, List.cons_append, readableBehind, hfurther,
      readableBehind_append, ih, hshown]
    simp

/-- What is text is shown as it is. -/
theorem readable_ofString (text : String) : readable (ofString text) = text := by
  rw [readable, ofString_eq, readableBehind_flatMap, String.ofList_toList]

end TypeAtlas.Bytes
