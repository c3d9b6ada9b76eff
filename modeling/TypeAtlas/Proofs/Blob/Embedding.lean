import Mathlib.Algebra.Order.Floor.Div
import TypeAtlas.Blob.Assembly.Reading
import TypeAtlas.Proofs.Text.Reading

/-!
# Assembly source read back

The source that embeds a byte string has a line for each row, and all of these stand between
the lines of the two labels. Read row by row it gives every byte once, in order.
-/

namespace TypeAtlas

namespace Text

theorem isBlank_hexDigitOf (n : Nat) : isBlank (hexDigitOf n) = false := by
  have h : ∀ d, d < 16 → isBlank (hexDigitOf d) = false := by decide
  have hmod : hexDigitOf n = hexDigitOf (n % 16) := by simp [hexDigitOf]
  rw [hmod]
  exact h (n % 16) (Nat.mod_lt n (by omega))

/-- A text that begins with a line feed ends the line in front of it. -/
theorem lines_append_of_lines {text line : List Char} {more : List (List Char)}
    (h : lines text = [] :: line :: more) (front : List Char) :
    lines (front ++ text) = lines front ++ line :: more := by
  cases text with
  | nil => simp [lines] at h
  | cons c rest =>
    by_cases hfeed : c = '\n'
    · subst hfeed
      rw [lines, if_pos rfl, List.cons_inj_right] at h
      rw [lines_append_lineFeed, h]
    · rw [lines, if_neg hfeed] at h
      cases hrest : lines rest <;> simp [hrest] at h

end Text

namespace Assembly

/-! ## Rows -/

theorem exists_cons_of_mem_rows {bytes row : Bytes} (h : row ∈ rows bytes) :
    ∃ byte rest, row = byte :: rest := by
  induction bytes using rows.induct with
  | case1 => simp [rows] at h
  | case2 byte rest ih =>
    rw [rows, List.mem_cons] at h
    rcases h with rfl | h
    · exact ⟨byte, rest.take (bytesPerLine - 1), rfl⟩
    · exact ih h

theorem length_rows (bytes : Bytes) : (rows bytes).length = bytes.length ⌈/⌉ bytesPerLine := by
  rw [Nat.ceilDiv_eq_add_pred_div]
  induction bytes using rows.induct with
  | case1 => simp [rows, bytesPerLine]
  | case2 byte rest ih =>
    rw [rows, List.length_cons, ih]
    simp only [List.length_drop, List.length_cons, bytesPerLine]
    omega

/-- A row takes what the rows in front of it have left, up to the width of a line. -/
theorem length_of_getElem?_rows {bytes row : Bytes} {i : Nat} (h : (rows bytes)[i]? = some row) :
    row.length = min bytesPerLine (bytes.length - bytesPerLine * i) := by
  induction bytes using rows.induct generalizing i with
  | case1 => simp [rows] at h
  | case2 byte rest ih =>
    rw [rows] at h
    cases i with
    | zero =>
      obtain rfl : byte :: rest.take (bytesPerLine - 1) = row := by simpa using h
      simp only [List.length_cons, List.length_take, bytesPerLine]
      omega
    | succ i =>
      rw [ih (by simpa using h)]
      simp only [List.length_drop, List.length_cons, bytesPerLine]
      omega

/-! ## Operands -/

def operands (row : Bytes) : List Char := (", ".intercalate (row.map operand)).toList

theorem isBlank_of_mem_operand {byte : UInt8} :
    ∀ c ∈ (operand byte).toList, Text.isBlank c = false := by
  have hprefix : Text.isBlank '0' = false ∧ Text.isBlank 'x' = false := by decide
  rw [toList_operand]
  simp [Text.writeHexByte, Text.isBlank_hexDigitOf, hprefix]

theorem operands_cons_cons (byte next : UInt8) (rest : Bytes) :
    operands (byte :: next :: rest) =
      ((operand byte).toList ++ [',']) ++ ' ' :: operands (next :: rest) := by
  simp [operands]

theorem operands_ne_nil (byte : UInt8) (rest : Bytes) : operands (byte :: rest) ≠ [] := by
  cases rest with
  | nil => simp [operands, toList_operand]
  | cons next rest => simp [operands_cons_cons]

theorem lineFeed_not_mem_operand (byte : UInt8) : '\n' ∉ (operand byte).toList := by
  intro hmem
  exact absurd (isBlank_of_mem_operand '\n' hmem) (by decide)

theorem lineFeed_not_mem_operands (byte : UInt8) (rest : Bytes) :
    '\n' ∉ operands (byte :: rest) := by
  induction rest generalizing byte with
  | nil => simpa [operands] using lineFeed_not_mem_operand byte
  | cons next rest ih =>
    simp [operands_cons_cons, lineFeed_not_mem_operand, ih]

theorem isTrimmed_operands (byte : UInt8) (rest : Bytes) :
    Text.IsTrimmed (operands (byte :: rest)) := by
  induction rest generalizing byte with
  | nil => simpa [operands] using Text.isTrimmed_of_word isBlank_of_mem_operand
  | cons next rest ih =>
    rw [operands_cons_cons]
    apply Text.isTrimmed_append _ (by simp) (ih next).2 (operands_ne_nil next rest)
    intro c hc
    rcases List.mem_append.mp hc with hc | hc
    · exact isBlank_of_mem_operand c hc
    · obtain rfl := List.mem_singleton.mp hc
      decide

/-! ## Lines -/

/-- The line of a row, without the line feed in front of it. -/
def rowLine (row : Bytes) : List Char := "    ".toList ++ (".byte".toList ++ ' ' :: operands row)

def startLabel : List Char := "_reflection_dat_start:".toList

def endLabel : List Char := "_reflection_dat_end:".toList

def linesAbove : List (List Char) := [
  "#ifdef __APPLE__".toList, "    .section __TEXT,__const".toList, "#elif defined(_WIN32)".toList,
  "    .section .rdata".toList, "#else".toList, "    .section .rodata".toList, "#endif".toList, [],
  "    .global _reflection_dat_start".toList, "    .global _reflection_dat_end".toList]

def linesBelow : List (List Char) := [
  [], "#ifdef __GNUC__".toList, "#ifndef __APPLE__".toList,
  "    .section .note.GNU-stack,\"\",@progbits".toList, "#endif".toList, "#endif".toList, []]

theorem toList_directive (row : Bytes) : (directive row).toList = '\n' :: rowLine row := by
  simp [directive, rowLine, operands]

theorem operands?_rowLine (byte : UInt8) (rest : Bytes) :
    operands? (rowLine (byte :: rest)) = some (operands (byte :: rest)) := by
  have hindent : ("    ".toList.all Text.isBlank) = true := by decide
  have hkeyword : ∀ c ∈ ".byte".toList, Text.isBlank c = false := by
    have hall : (".byte".toList.all fun c => !Text.isBlank c) = true := by decide
    simpa [List.all_eq_true] using hall
  have htrimmed : Text.IsTrimmed (".byte".toList ++ ' ' :: operands (byte :: rest)) :=
    Text.isTrimmed_append hkeyword (by decide) (isTrimmed_operands byte rest).2
      (operands_ne_nil byte rest)
  have hkept := Text.trim_append (List.all_eq_true.mp hindent) htrimmed (List.forall_mem_nil _)
  rw [List.append_nil] at hkept
  rw [operands?, rowLine, hkept]
  simp

-- The text is cut into its literals first: to evaluate it as one takes much longer.
theorem lines_opening : Text.lines opening.toList = linesAbove ++ [startLabel, []] := by
  delta opening
  simp only [String.toList_append]
  decide +kernel

theorem lines_closing : Text.lines closing.toList = [] :: endLabel :: linesBelow := by
  delta closing
  simp only [String.toList_append]
  decide +kernel

theorem lineFeed_not_mem_rowLines {bytes : Bytes} :
    ∀ line ∈ (rows bytes).map rowLine, '\n' ∉ line := by
  intro line hline
  obtain ⟨row, hrow, rfl⟩ := List.mem_map.mp hline
  obtain ⟨byte, rest, rfl⟩ := exists_cons_of_mem_rows hrow
  simp [rowLine, lineFeed_not_mem_operands]

/-- The rendered text line by line: the rows stand between the two labels, with an empty line
in front of them. -/
theorem lines_render (bytes : Bytes) :
    Text.lines (render bytes).toList =
      linesAbove ++ startLabel :: ([] :: (rows bytes).map rowLine) ++ endLabel :: linesBelow := by
  have hrows : (render bytes).toList =
      (opening.toList ++ ((rows bytes).map rowLine).flatMap ('\n' :: ·)) ++ closing.toList := by
    simp [render, toList_directive, List.flatMap_map]
  rw [hrows, Text.lines_append_of_lines lines_closing,
    Text.lines_append_flatMap lineFeed_not_mem_rowLines, lines_opening]
  simp

/-! ## Reading -/

theorem filterMap_rowLine (bytes : Bytes) :
    ((rows bytes).map rowLine).filterMap operands? = (rows bytes).map operands := by
  rw [List.filterMap_map, ← List.filterMap_eq_map]
  apply List.filterMap_congr
  intro row hrow
  obtain ⟨byte, rest, rfl⟩ := exists_cons_of_mem_rows hrow
  exact operands?_rowLine byte rest

/-- The text has one directive for each row, and none outside the labels. -/
theorem directives_render (bytes : Bytes) :
    directives (render bytes) = (rows bytes).map operands := by
  have habove : linesAbove.filterMap operands? = [] := by decide +kernel
  have hlabels : operands? startLabel = none ∧ operands? [] = none ∧ operands? endLabel = none := by
    decide +kernel
  have hbelow : linesBelow.filterMap operands? = [] := by decide +kernel
  simp only [directives, lines_render, List.filterMap_append, List.filterMap_cons, habove, hlabels,
    hbelow, filterMap_rowLine, List.nil_append, List.append_nil]

theorem mapM_row?_operands {rows : List Bytes} (h : ∀ row ∈ rows, ∃ byte rest, row = byte :: rest) :
    (rows.map operands).mapM row? = some rows := by
  induction rows with
  | nil => rfl
  | cons row others ih =>
    obtain ⟨⟨byte, rest, rfl⟩, hothers⟩ := List.forall_mem_cons.mp h
    have hrow : row? (operands (byte :: rest)) = some (byte :: rest) := row?_intercalate byte rest
    rw [List.map_cons, List.mapM_cons, hrow, ih hothers]
    rfl

/-- A directive reads as the row that it was written for. -/
theorem length_cutAtCommas_operands {bytes row : Bytes} (h : row ∈ rows bytes) :
    (cutAtCommas (operands row)).length = row.length := by
  obtain ⟨byte, rest, rfl⟩ := exists_cons_of_mem_rows h
  rw [operands, cutAtCommas_intercalate, List.length_map]

theorem label_not_mem {label : List Char} (bytes : Bytes) (hhead : label.head? = some '_')
    (hfixed : label ∉ linesAbove ++ linesBelow) :
    label ∉ linesAbove ++ ([] :: (rows bytes).map rowLine) ++ linesBelow := by
  have hrows : label ∉ [] :: (rows bytes).map rowLine := by
    intro hmem
    rcases List.mem_cons.mp hmem with rfl | hmem
    · cases hhead
    · obtain ⟨row, -, rfl⟩ := List.mem_map.mp hmem
      simp [rowLine] at hhead
  simp only [List.mem_append, not_or] at hfixed ⊢
  exact ⟨⟨hfixed.1, hrows⟩, hfixed.2⟩

/-- Every byte stands in the rendered text once and in order. The byte directives give the bytes
back; there are as many as rows of twelve bytes are needed, each but the last is full, and they all
stand between the two labels. -/
theorem read_render (bytes : Bytes) :
    read? (render bytes) = some bytes ∧
    (directives (render bytes)).length = bytes.length ⌈/⌉ 12 ∧
    (∀ i items, (directives (render bytes))[i]? = some items →
      0 < (cutAtCommas items).length ∧ (cutAtCommas items).length ≤ 12 ∧
      (i + 1 < (directives (render bytes)).length → (cutAtCommas items).length = 12)) ∧
    ∃ above between below,
      Text.lines (render bytes).toList = above ++ startLabel :: between ++ endLabel :: below ∧
      (∀ line ∈ above ++ below, operands? line = none) ∧
      startLabel ∉ above ++ between ++ below ∧ endLabel ∉ above ++ between ++ below := by
  refine ⟨?_, ?_, ?_, linesAbove, [] :: (rows bytes).map rowLine, linesBelow, lines_render bytes,
    by decide +kernel, label_not_mem bytes rfl (by decide +kernel),
    label_not_mem bytes rfl (by decide +kernel)⟩
  · rw [read?, directives_render, mapM_row?_operands fun row => exists_cons_of_mem_rows,
      Option.map_some, flatten_rows]
  · rw [directives_render, List.length_map]
    exact length_rows bytes
  · intro i items hitems
    rw [directives_render, List.getElem?_map, Option.map_eq_some_iff] at hitems
    obtain ⟨row, hrow, rfl⟩ := hitems
    obtain ⟨hi, -⟩ := List.getElem?_eq_some_iff.mp hrow
    have hlength := length_of_getElem?_rows hrow
    rw [length_cutAtCommas_operands (List.mem_of_getElem? hrow), directives_render,
      List.length_map]
    rw [length_rows, Nat.ceilDiv_eq_add_pred_div] at hi ⊢
    simp only [bytesPerLine] at hi hlength ⊢
    omega

end Assembly

end TypeAtlas
