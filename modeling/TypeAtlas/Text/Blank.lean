/-!
# Blank characters, lines and trimmed text

The characters with the White_Space property, and the three ways a text is cut along
them: into lines, from both ends, and at the first blank.
-/

namespace TypeAtlas.Text

/-- The White_Space property of Unicode. -/
def isBlank (c : Char) : Bool :=
  let n := c.toNat
  (9 ≤ n && n ≤ 13) || n == 0x20 || n == 0x85 || n == 0xA0 || n == 0x1680 ||
  (0x2000 ≤ n && n ≤ 0x200A) || n == 0x2028 || n == 0x2029 || n == 0x202F ||
  n == 0x205F || n == 0x3000

def trimStart (text : List Char) : List Char := text.dropWhile isBlank

def trimEnd (text : List Char) : List Char := (text.reverse.dropWhile isBlank).reverse

def trim (text : List Char) : List Char := trimEnd (trimStart text)

/-- The part before the first blank, and the trimmed part behind it. -/
def firstWord (text : List Char) : List Char × List Char :=
  (text.takeWhile (!isBlank ·), trim (text.dropWhile (!isBlank ·)))

/-- The pieces between line feeds; there is always one piece more than line feeds. -/
def lines : List Char → List (List Char)
  | [] => [[]]
  | c :: rest =>
    if c = '\n' then [] :: lines rest
    else match lines rest with
      | [] => [[c]]
      | line :: more => (c :: line) :: more

/-! ## Texts that are trimmed -/

def IsTrimmed (text : List Char) : Prop :=
  (∀ c ∈ text.head?, isBlank c = false) ∧ ∀ c ∈ text.getLast?, isBlank c = false

theorem trimStart_eq_self {text : List Char} (h : ∀ c ∈ text.head?, isBlank c = false) :
    trimStart text = text := by
  cases text with
  | nil => rfl
  | cons c rest =>
    have hc : isBlank c = false := h c rfl
    simp [trimStart, hc]

theorem trimEnd_eq_self {text : List Char} (h : ∀ c ∈ text.getLast?, isBlank c = false) :
    trimEnd text = text := by
  have hfront : trimStart text.reverse = text.reverse :=
    trimStart_eq_self (by simpa using h)
  unfold trimStart at hfront
  simp [trimEnd, hfront]

theorem trim_eq_self {text : List Char} (h : IsTrimmed text) : trim text = text := by
  rw [trim, trimStart_eq_self h.1, trimEnd_eq_self h.2]

theorem isTrimmed_of_word {word : List Char} (h : ∀ c ∈ word, isBlank c = false) :
    IsTrimmed word := by
  constructor
  · intro c hc
    exact h c (List.mem_of_mem_head? hc)
  · intro c hc
    exact h c (List.mem_of_mem_getLast? hc)

theorem isTrimmed_append {word text : List Char} {between : Char}
    (hword : ∀ c ∈ word, isBlank c = false) (hsome : word ≠ [])
    (htext : ∀ c ∈ text.getLast?, isBlank c = false) (hrest : text ≠ []) :
    IsTrimmed (word ++ between :: text) := by
  constructor
  · intro c hc
    cases word with
    | nil => exact absurd rfl hsome
    | cons first rest =>
      have hfirst : first = c := by simpa using hc
      exact hword c (by simp [hfirst])
  · intro c hc
    cases text with
    | nil => exact absurd rfl hrest
    | cons first rest =>
      have hlast : (first :: rest).getLast? = some c := by
        simpa [List.getLast?_append, List.getLast?_cons] using hc
      exact htext c hlast

/-- A word is told apart from what stands behind the blank that ends it. -/
theorem firstWord_append {word : List Char} {blank : Char} (hword : ∀ c ∈ word, isBlank c = false)
    (hblank : isBlank blank = true) (text : List Char) :
    firstWord (word ++ blank :: text) = (word, trim text) := by
  have hfront : ∀ c ∈ word, (!isBlank c) = true := by
    intro c hc
    simp [hword c hc]
  have htake : (word ++ blank :: text).takeWhile (!isBlank ·) = word := by
    rw [List.takeWhile_append_of_pos hfront]
    simp [hblank]
  have hdrop : (word ++ blank :: text).dropWhile (!isBlank ·) = blank :: text := by
    rw [List.dropWhile_append_of_pos hfront]
    simp [hblank]
  have hspace : trim (blank :: text) = trim text := by
    simp [trim, trimStart, hblank]
  simp only [firstWord, htake, hdrop, hspace]

/-- A word alone is its own first word. -/
theorem firstWord_of_word {word : List Char} (hword : ∀ c ∈ word, isBlank c = false) :
    firstWord word = (word, []) := by
  have hfront : ∀ c ∈ word, (!isBlank c) = true := by
    intro c hc
    simp [hword c hc]
  have htake : (word ++ []).takeWhile (!isBlank ·) = word ++ [] :=
    List.takeWhile_append_of_pos hfront
  have hdrop : (word ++ []).dropWhile (!isBlank ·) = [] :=
    List.dropWhile_append_of_pos hfront
  rw [List.append_nil] at htake hdrop
  simp only [firstWord, htake, hdrop]
  rfl

/-! ## Lines -/

theorem lines_ne_nil (text : List Char) : lines text ≠ [] := by
  cases text with
  | nil => simp [lines]
  | cons c rest =>
    unfold lines
    split
    · simp
    · split <;> simp

/-- A line feed ends a line, whatever stands before it. -/
theorem lines_append_lineFeed (front back : List Char) :
    lines (front ++ '\n' :: back) = lines front ++ lines back := by
  induction front with
  | nil => simp [lines]
  | cons c rest ih =>
    by_cases h : c = '\n'
    · simp [lines, h, ih]
    · simp only [List.cons_append, lines, if_neg h, ih]
      cases hrest : lines rest with
      | nil => exact absurd hrest (lines_ne_nil rest)
      | cons line more => simp

end TypeAtlas.Text
