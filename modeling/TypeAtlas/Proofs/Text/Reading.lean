import Mathlib.Data.List.Basic
import Mathlib.Data.List.Induction
import Mathlib.Data.Nat.Digits.Defs
import TypeAtlas.Text.Blank
import TypeAtlas.Text.Decimal

/-!
# Reading lines, words and numbers

What the cuts of a text come to, said without cutting it: which lines a text has, which word
and which argument stand on a line, and which number a word writes.
-/

namespace TypeAtlas.Text

/-! ## Lines -/

theorem lines_eq_splitOn (text : List Char) : lines text = text.splitOn '\n' := by
  induction text with
  | nil => rfl
  | cons c rest ih =>
    rw [List.splitOn, List.splitOnP_cons_eq_if_modifyHead, ← List.splitOn, ← ih, lines]
    by_cases h : c = '\n'
    · simp [h]
    · rw [if_neg h, if_neg (by simpa using h)]
      cases hrest : lines rest with
      | nil => exact absurd hrest (lines_ne_nil rest)
      | cons line more => rfl

theorem lines_of_not_mem {text : List Char} (h : '\n' ∉ text) : lines text = [text] := by
  induction text with
  | nil => rfl
  | cons c rest ih =>
    rw [List.mem_cons, not_or] at h
    rw [lines, if_neg (Ne.symm h.1), ih h.2]

/-- Lines that are closed one by one are the lines of the whole, and behind the last of them
nothing is left. -/
theorem lines_flatMap {rows : List (List Char)} (h : ∀ row ∈ rows, '\n' ∉ row) :
    lines (rows.flatMap (· ++ ['\n'])) = rows ++ [[]] := by
  induction rows with
  | nil => rfl
  | cons row rest ih =>
    obtain ⟨hrow, hrest⟩ := List.forall_mem_cons.mp h
    rw [List.flatMap_cons, List.append_assoc, List.singleton_append, lines_append_lineFeed,
      lines_of_not_mem hrow, ih hrest, List.singleton_append, List.cons_append]

/-- Lines that a line feed begins stand behind the lines of the text in front of them. -/
theorem lines_append_flatMap {rows : List (List Char)} (h : ∀ row ∈ rows, '\n' ∉ row)
    (front : List Char) : lines (front ++ rows.flatMap ('\n' :: ·)) = lines front ++ rows := by
  induction rows generalizing front with
  | nil => simp
  | cons row rest ih =>
    obtain ⟨hrow, hrest⟩ := List.forall_mem_cons.mp h
    rw [List.flatMap_cons, ← List.append_assoc, ih hrest, lines_append_lineFeed,
      lines_of_not_mem hrow, List.append_assoc, List.singleton_append]

/-! ## Words -/

/-- On a line stand a word without blanks and, behind a blank, an argument, with nothing but
blanks around them. Without a word there is no argument. -/
structure Splits (line word argument : List Char) : Prop where
  parts : ∃ front gap back, line = front ++ word ++ gap ++ argument ++ back ∧
    (∀ c ∈ front ++ gap ++ back, isBlank c = true) ∧ (argument ≠ [] → gap ≠ [])
  plain : ∀ c ∈ word, isBlank c = false
  trimmed : IsTrimmed argument
  alone : word = [] → argument = []

theorem head?_trimStart (text : List Char) : ∀ c ∈ (trimStart text).head?, isBlank c = false := by
  intro c hc
  have hhead := List.head?_dropWhile_not isBlank text
  rw [Option.mem_def, trimStart] at hc
  rw [hc] at hhead
  exact hhead

theorem trimStart_eq (text : List Char) :
    ∃ front, text = front ++ trimStart text ∧ ∀ c ∈ front, isBlank c = true :=
  ⟨text.takeWhile isBlank, List.takeWhile_append_dropWhile.symm,
    List.all_eq_true.mp List.all_takeWhile⟩

theorem getLast?_trimEnd (text : List Char) :
    ∀ c ∈ (trimEnd text).getLast?, isBlank c = false := by
  rw [trimEnd, List.getLast?_reverse]
  exact head?_trimStart text.reverse

theorem trimEnd_eq (text : List Char) :
    ∃ back, text = trimEnd text ++ back ∧ ∀ c ∈ back, isBlank c = true := by
  obtain ⟨front, hfront, hblank⟩ := trimStart_eq text.reverse
  refine ⟨front.reverse, ?_, fun c hc => hblank c (List.mem_reverse.mp hc)⟩
  rw [← List.reverse_inj, hfront]
  simp [trimEnd, trimStart]

/-- Blanks that are dropped at the back leave the front as it is. -/
theorem head?_trimEnd {text : List Char} (h : ∀ c ∈ text.head?, isBlank c = false) :
    ∀ c ∈ (trimEnd text).head?, isBlank c = false := by
  obtain ⟨back, htext, -⟩ := trimEnd_eq text
  cases hkept : trimEnd text with
  | nil => simp
  | cons first rest =>
    rw [hkept] at htext
    rw [htext] at h
    exact h

theorem isTrimmed_trim (text : List Char) : IsTrimmed (trim text) :=
  ⟨head?_trimEnd (head?_trimStart text), getLast?_trimEnd (trimStart text)⟩

theorem trim_eq (text : List Char) :
    ∃ front back, text = front ++ trim text ++ back ∧ ∀ c ∈ front ++ back, isBlank c = true := by
  obtain ⟨front, hfront, hfrontBlank⟩ := trimStart_eq text
  obtain ⟨back, hback, hbackBlank⟩ := trimEnd_eq (trimStart text)
  refine ⟨front, back, ?_, List.forall_mem_append.mpr ⟨hfrontBlank, hbackBlank⟩⟩
  rw [trim, List.append_assoc, ← hback, ← hfront]

theorem head?_behindWord (text : List Char) :
    ∀ c ∈ (text.dropWhile (!isBlank ·)).head?, isBlank c = true := by
  intro c hc
  have hhead := List.head?_dropWhile_not (!isBlank ·) text
  rw [Option.mem_def] at hc
  rw [hc] at hhead
  simpa using hhead

theorem firstWord_eq (text : List Char) :
    ∃ gap tail, text = (firstWord text).1 ++ gap ++ (firstWord text).2 ++ tail ∧
      (∀ c ∈ gap ++ tail, isBlank c = true) ∧ ((firstWord text).2 ≠ [] → gap ≠ []) := by
  obtain ⟨gap, tail, hrest, hblank⟩ := trim_eq (text.dropWhile (!isBlank ·))
  refine ⟨gap, tail, ?_, hblank, ?_⟩
  · rw [firstWord, List.append_assoc, List.append_assoc, ← List.append_assoc gap, ← hrest,
      List.takeWhile_append_dropWhile]
  · rintro hargument rfl
    -- Without a blank before it, the argument would start with one.
    have htrimmed := (isTrimmed_trim (text.dropWhile (!isBlank ·))).1
    have hbehind := head?_behindWord text
    rw [hrest] at hbehind
    cases hkept : trim (text.dropWhile (!isBlank ·)) with
    | nil => exact hargument hkept
    | cons first more =>
      rw [hkept] at htrimmed hbehind
      have hno := htrimmed first rfl
      rw [hbehind first rfl] at hno
      cases hno

theorem firstWord_alone {text : List Char} (htext : IsTrimmed text)
    (hword : (firstWord text).1 = []) : (firstWord text).2 = [] := by
  cases text with
  | nil => rfl
  | cons first rest =>
    have hfirst := htext.1 first rfl
    simp [firstWord, hfirst] at hword

/-- The first word of a trimmed line, and the rest of the line trimmed again. -/
theorem splits_firstWord (line : List Char) :
    Splits line (firstWord (trim line)).1 (firstWord (trim line)).2 := by
  obtain ⟨front, back, hline, hends⟩ := trim_eq line
  obtain ⟨gap, tail, htext, hblank, hgap⟩ := firstWord_eq (trim line)
  have hplain : ∀ c ∈ (firstWord (trim line)).1, isBlank c = false := by
    intro c hc
    simpa using List.all_eq_true.mp List.all_takeWhile c hc
  refine ⟨⟨front, gap, tail ++ back, ?_, ?_, hgap⟩, hplain, isTrimmed_trim _,
    firstWord_alone (isTrimmed_trim line)⟩
  · rw [htext] at hline
    simpa only [List.append_assoc] using hline
  · rw [List.forall_mem_append] at hends hblank
    simp only [List.forall_mem_append]
    exact ⟨⟨hends.1, hblank.1⟩, hblank.2, hends.2⟩

theorem trimStart_append {front : List Char} (hblank : ∀ c ∈ front, isBlank c = true)
    (text : List Char) : trimStart (front ++ text) = trimStart text :=
  List.dropWhile_append_of_pos hblank

theorem trimEnd_append {back : List Char} (hblank : ∀ c ∈ back, isBlank c = true)
    (text : List Char) : trimEnd (text ++ back) = trimEnd text := by
  have hreverse : ∀ c ∈ back.reverse, isBlank c = true :=
    fun c hc => hblank c (List.mem_reverse.mp hc)
  rw [trimEnd, List.reverse_append, List.dropWhile_append_of_pos hreverse, trimEnd]

/-- Nothing but the blanks around a trimmed text is dropped. -/
theorem trim_append {front text back : List Char} (hfront : ∀ c ∈ front, isBlank c = true)
    (htext : IsTrimmed text) (hback : ∀ c ∈ back, isBlank c = true) :
    trim (front ++ text ++ back) = text := by
  rw [trim, List.append_assoc, trimStart_append hfront]
  cases text with
  | nil =>
    have hnothing := trimStart_append hback []
    rw [List.append_nil] at hnothing
    rw [List.nil_append, hnothing]
    rfl
  | cons first rest =>
    rw [trimStart_eq_self (by simpa using htext.1), trimEnd_append hback,
      trimEnd_eq_self htext.2]

/-- A line is split in one way only. -/
theorem splits_iff {line word argument : List Char} :
    Splits line word argument ↔ firstWord (trim line) = (word, argument) := by
  constructor
  · intro hgiven
    rcases hgiven with ⟨⟨front, gap, back, rfl, hblank, hgap⟩, hplain, htrimmed, halone⟩
    rw [List.forall_mem_append, List.forall_mem_append] at hblank
    obtain ⟨⟨hfront, hgapBlank⟩, hback⟩ := hblank
    by_cases hargument : argument = []
    · have hword := trim_append hfront (isTrimmed_of_word hplain)
        (List.forall_mem_append.mpr ⟨hgapBlank, hback⟩)
      rw [hargument, List.append_nil, List.append_assoc _ gap back, hword,
        firstWord_of_word hplain]
    · have hsome : word ≠ [] := fun hnone => hargument (halone hnone)
      obtain ⟨blank, gap, rfl⟩ := List.exists_cons_of_ne_nil (hgap hargument)
      obtain ⟨hblank, hgapBlank⟩ := List.forall_mem_cons.mp hgapBlank
      have hkept : trim (gap ++ argument) = argument := by
        simpa using trim_append hgapBlank htrimmed (List.forall_mem_nil _)
      have hends : IsTrimmed (word ++ blank :: (gap ++ argument)) := by
        apply isTrimmed_append hplain hsome _ (by simp [hargument])
        rw [List.getLast?_append_of_ne_nil gap hargument]
        exact htrimmed.2
      have hline : front ++ word ++ blank :: gap ++ argument ++ back =
          front ++ (word ++ blank :: (gap ++ argument)) ++ back := by
        simp
      rw [hline, trim_append hfront hends hback, firstWord_append hplain hblank, hkept]
  · intro h
    have hsplits := splits_firstWord line
    rwa [h] at hsplits

/-! ## Numbers -/

/-- The digits of a number, at least one, from the highest to the lowest. -/
structure WritesNat (text : List Char) (n : Nat) : Prop where
  nonempty : text ≠ []
  digits : ∀ c ∈ text, c.isDigit = true
  value : n = Nat.ofDigits 10 (text.reverse.map fun c => c.toNat - '0'.toNat)

/-- The digits of a number, and maybe a plus sign in front. -/
def WritesUnsigned (text : List Char) (n : Nat) : Prop :=
  WritesNat text n ∨ ∃ digits, text = '+' :: digits ∧ WritesNat digits n

def WritesSigned (text : List Char) (z : Int) : Prop :=
  (∃ n : Nat, WritesUnsigned text n ∧ z = n) ∨
    ∃ digits, ∃ n : Nat, text = '-' :: digits ∧ WritesNat digits n ∧ z = -n

/-- A value that is written, or the one that stands in where none is. -/
def ReadsAs (written : α → Prop) (standIn value : α) : Prop :=
  written value ∨ value = standIn ∧ ∀ other, ¬written other

theorem readsAs_iff {read : Option α} {written : α → Prop}
    (h : ∀ value, read = some value ↔ written value) {standIn value : α} :
    ReadsAs written standIn value ↔ read.getD standIn = value := by
  cases hread : read with
  | some found =>
    have hfound := (h found).mp hread
    rw [ReadsAs, Option.getD_some, ← h, hread, Option.some_inj]
    constructor
    · intro hgiven
      rcases hgiven with heq | ⟨-, hnone⟩
      · exact heq
      · exact absurd hfound (hnone found)
    · exact .inl
  | none =>
    have hnone : ∀ other, ¬written other := by
      intro other hother
      rw [(h other).mpr hother] at hread
      cases hread
    rw [ReadsAs, Option.getD_none]
    constructor
    · intro hgiven
      rcases hgiven with hwritten | ⟨heq, -⟩
      · exact absurd hwritten (hnone value)
      · exact heq.symm
    · intro heq
      exact .inr ⟨heq.symm, hnone⟩

theorem digit?_eq (c : Char) :
    digit? c = if c.isDigit then some (c.toNat - '0'.toNat) else none := by
  have hsame : (c.isDigit = true) ↔ '0' ≤ c ∧ c ≤ '9' := by
    simp only [Char.isDigit, Bool.and_eq_true, decide_eq_true_eq]
    rfl
  by_cases h : c.isDigit = true
  · rw [if_pos h, digit?, if_pos (hsame.mp h)]
  · rw [if_neg h, digit?, if_neg (mt hsame.mpr h)]

theorem foldlM_digits_eq_some_iff {text : List Char} {n : Nat} :
    text.foldlM (fun n c => (digit? c).map (10 * n + ·)) 0 = some n ↔
      (∀ c ∈ text, c.isDigit = true) ∧
        n = Nat.ofDigits 10 (text.reverse.map fun c => c.toNat - '0'.toNat) := by
  induction text using List.reverseRecOn generalizing n with
  | nil =>
    simp only [List.foldlM_nil, List.reverse_nil, List.map_nil, Nat.ofDigits_nil]
    constructor
    · intro hgiven
      rcases hgiven with ⟨⟩
      simp
    · intro hgiven
      rcases hgiven with ⟨-, rfl⟩
      rfl
  | append_singleton front c ih =>
    rw [List.foldlM_append, List.reverse_append, List.reverse_singleton, List.singleton_append,
      List.map_cons, Nat.ofDigits_cons, List.forall_mem_append, List.forall_mem_singleton]
    rw [Option.bind_eq_bind, Option.bind_eq_some_iff]
    constructor
    · intro hgiven
      rcases hgiven with ⟨high, hfront, hlast⟩
      obtain ⟨hdigits, rfl⟩ := ih.mp hfront
      by_cases hc : c.isDigit = true
      · rw [List.foldlM_cons, digit?_eq, if_pos hc] at hlast
        refine ⟨⟨hdigits, hc⟩, ?_⟩
        rw [← Option.some.inj hlast]
        exact Nat.add_comm _ _
      · rw [List.foldlM_cons, digit?_eq, if_neg hc] at hlast
        cases hlast
    · intro hgiven
      rcases hgiven with ⟨⟨hdigits, hc⟩, rfl⟩
      refine ⟨_, ih.mpr ⟨hdigits, rfl⟩, ?_⟩
      rw [List.foldlM_cons, digit?_eq, if_pos hc]
      exact congrArg some (Nat.add_comm _ _)

theorem natural?_eq_some_iff {text : List Char} {n : Nat} :
    natural? text = some n ↔ WritesNat text n := by
  unfold natural?
  split
  · constructor
    · intro h
      cases h
    · intro h
      exact absurd rfl h.nonempty
  · next hne =>
    rw [foldlM_digits_eq_some_iff]
    exact ⟨fun h => ⟨hne, h.1, h.2⟩, fun h => ⟨h.digits, h.value⟩⟩

theorem unsigned?_eq_some_iff {limit : Nat} {text : List Char} {n : Nat} :
    unsigned? limit text = some n ↔ WritesUnsigned text n ∧ n < limit := by
  rw [unsigned?, Option.filter_eq_some_iff, decide_eq_true_eq]
  refine and_congr_left fun _ => ?_
  rw [natural?_eq_some_iff, WritesUnsigned]
  cases text with
  | nil => simp
  | cons first rest =>
    by_cases hsign : first = '+'
    · subst hsign
      have hno : ¬WritesNat ('+' :: rest) n := by
        intro h
        have hdigit := h.digits '+' List.mem_cons_self
        exact absurd hdigit (by decide)
      simp [hno]
    · simp [hsign]

theorem signed?_eq_some_iff {limit : Nat} (hlimit : 0 < limit) {text : List Char} {z : Int} :
    signed? limit text = some z ↔ WritesSigned text z ∧ -(limit : Int) ≤ z ∧ z < limit := by
  have hminus : ∀ (digits : List Char) (n : Nat), ¬WritesUnsigned ('-' :: digits) n := by
    intro digits n hgiven
    rcases hgiven with h | ⟨more, heq, -⟩
    · exact absurd (h.digits '-' List.mem_cons_self) (by decide)
    · cases heq
  unfold signed?
  split
  · next hsign =>
    obtain ⟨digits, rfl⟩ : ∃ digits, text = '-' :: digits := by
      cases text with
      | nil => cases hsign
      | cons first rest =>
        cases hsign
        exact ⟨rest, rfl⟩
    simp only [List.tail_cons, Option.map_eq_some_iff, Option.filter_eq_some_iff,
      natural?_eq_some_iff, decide_eq_true_eq, WritesSigned, hminus, false_and, exists_false,
      false_or]
    constructor
    · intro hgiven
      rcases hgiven with ⟨n, ⟨hn, hle⟩, rfl⟩
      exact ⟨⟨digits, n, rfl, hn, rfl⟩, by omega, by omega⟩
    · intro hgiven
      rcases hgiven with ⟨⟨more, n, heq, hn, rfl⟩, hlow, -⟩
      cases heq
      exact ⟨n, ⟨hn, by omega⟩, rfl⟩
  · next hsign =>
    have hplain : ∀ digits, text ≠ '-' :: digits := by
      rintro digits rfl
      exact hsign rfl
    simp only [Option.map_eq_some_iff, unsigned?_eq_some_iff, WritesSigned, hplain, false_and,
      exists_false, or_false]
    constructor
    · intro hgiven
      rcases hgiven with ⟨n, ⟨hn, hlt⟩, rfl⟩
      exact ⟨⟨n, hn, rfl⟩, by omega, by omega⟩
    · intro hgiven
      rcases hgiven with ⟨⟨n, hn, rfl⟩, -, hlt⟩
      exact ⟨n, ⟨hn, by omega⟩, rfl⟩

end TypeAtlas.Text
