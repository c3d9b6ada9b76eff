import TypeAtlas.Blob.MachineCursor
import TypeAtlas.Proofs.Blob.Exchange

/-!
# Where a cursor stands

An operation passes over the bytes it reads, if they are all there, and otherwise leaves the
cursor where it is. So a cursor never leaves its buffer, and a run can say of every operation
what it answers and where it leads. Only a name is read in two steps: once its offset word is
read the cursor stands behind the word, whether or not a text is found.

Machine words do for all of it: a sum or product that they do not hold is larger than any
buffer.
-/

namespace TypeAtlas

namespace Cursor

/-! ## What an operation asks for -/

def Operation.reach : Operation → Nat
  | .byte | .flag => 1
  | .half => 4
  | .word | .name => 8
  | .bytes count => count.toNat
  | .nameAt _ | .hasRoom _ _ => 0

def ahead (cursor : Cursor) (operation : Operation) : Bytes := cursor.rest.take operation.reach

/-- The reading is what the bytes ahead say, or what else the operation asks of the buffer. -/
def Yields (cursor : Cursor) : Operation → Reading → Prop
  | .byte, .byte value => cursor.ahead .byte = [value]
  | .flag, .flag value => ∃ byte : UInt8, cursor.ahead .flag = [byte] ∧ (value = true ↔ byte ≠ 0)
  | .half, .half value => value.toNat = Bytes.toWord .little (cursor.ahead .half)
  | .word, .word value => value.toNat = Bytes.toWord .little (cursor.ahead .word)
  | .bytes count, .bytes value => value = cursor.ahead (.bytes count)
  | .nameAt offset, .name name =>
    Bytes.TextAt cursor.content offset.toNat name.text ∧ name.owned = cursor.copies
  | .name, .name name =>
    Bytes.TextAt cursor.content (Bytes.toWord .little (cursor.ahead .name)) name.text ∧
      name.owned = cursor.copies
  | .hasRoom count least, .room answer =>
    answer = true ↔ count.toNat * least.toNat ≤ cursor.remaining
  | _, _ => False

/-- How a cursor takes an operation: it answers with what the operation asks for exactly if the
bytes are there and say it, and it moves over the bytes it has read. A fault leaves it where it
was, except when it is that of a name whose offset word has been read. -/
structure Takes (cursor : Cursor) (operation : Operation) (answer : Except BlobError Reading)
    (next : Cursor) : Prop where
  answer_iff : ∀ reading, answer = .ok reading ↔
    operation.reach ≤ cursor.remaining ∧ cursor.Yields operation reading
  short : cursor.remaining < operation.reach →
    answer = .error (.unexpectedEnd cursor.offset operation.reach)
  moves : ∀ reading, answer = .ok reading → next = cursor.advance operation.reach
  stays : ∀ fault, answer = .error fault → (operation = .name → cursor.remaining < 8) →
    next = cursor
  behindWord : ∀ fault, answer = .error fault → operation = .name → 8 ≤ cursor.remaining →
    next = cursor.advance 8

variable {cursor : Cursor}

/-! ## Reads where the cursor stands -/

theorem readBytes_eq_of_within (hin : cursor.offset ≤ cursor.length) (count : Nat) :
    cursor.readBytes count =
      if count ≤ cursor.remaining then .ok (cursor.rest.take count, cursor.advance count)
      else .error (.unexpectedEnd cursor.offset count) := by
  have hroom : cursor.offset + count ≤ cursor.content.length ↔ count ≤ cursor.remaining := by
    rw [length_content, remaining]
    omega
  rw [readBytes_eq]
  simp only [hroom]
  rfl

def Operation.decode (bytes : Bytes) : Operation → Reading
  | .byte => .byte (UInt8.ofNat (Bytes.toWord hostOrder bytes))
  | .flag => .flag (Bytes.toWord hostOrder bytes != 0)
  | .half => .half (UInt32.ofNat (Bytes.toWord hostOrder bytes))
  | .word => .word (UInt64.ofNat (Bytes.toWord hostOrder bytes))
  | _ => .bytes bytes

def Operation.IsRead : Operation → Prop
  | .byte | .flag | .half | .word | .bytes _ => True
  | .nameAt _ | .name | .hasRoom _ _ => False

theorem perform_of_isRead (hin : cursor.offset ≤ cursor.length) {operation : Operation}
    (hread : operation.IsRead) :
    cursor.perform operation =
      if operation.reach ≤ cursor.remaining then
        (.ok (operation.decode (cursor.ahead operation)), cursor.advance operation.reach)
      else (.error (.unexpectedEnd cursor.offset operation.reach), cursor) := by
  have hbytes := readBytes_eq_of_within hin operation.reach
  by_cases hroom : operation.reach ≤ cursor.remaining
  all_goals
    simp only [hroom, if_true, if_false] at hbytes ⊢
    cases operation with
    | byte | flag | half | word | bytes count =>
        simp only [Operation.reach] at hbytes
        simp only [perform, readByte, readFlag, readHalf, readWord, readNumber, hostWidth, hbytes]
        rfl
    | nameAt offset | name | hasRoom count least => exact hread.elim

theorem length_ahead {operation : Operation} (h : operation.reach ≤ cursor.remaining) :
    (cursor.ahead operation).length = operation.reach := by
  rw [ahead, List.length_take, length_rest, Nat.min_eq_left h]

theorem exists_ahead_eq_singleton {operation : Operation} (hreach : operation.reach = 1)
    (h : operation.reach ≤ cursor.remaining) : ∃ byte, cursor.ahead operation = [byte] :=
  List.length_eq_one_iff.mp ((length_ahead h).trans hreach)

/-- Eight bytes that are there fill a machine word. -/
theorem toNat_word_ahead {operation : Operation} (hreach : operation.reach = 8)
    (h : operation.reach ≤ cursor.remaining) :
    (UInt64.ofNat (Bytes.toWord hostOrder (cursor.ahead operation))).toNat =
      Bytes.toWord hostOrder (cursor.ahead operation) := by
  have hlt := Bytes.toWord_lt hostOrder (cursor.ahead operation)
  rw [length_ahead h, hreach] at hlt
  exact UInt64.toNat_ofNat_of_lt' hlt

theorem toWord_singleton (byte : UInt8) : Bytes.toWord hostOrder [byte] = byte.toNat := by
  simp [Bytes.toWord, hostOrder, ByteOrder.arrange, Bytes.value]

/-- Bytes that are there say exactly the reading that an operation asks for. -/
theorem yields_iff_of_isRead {operation : Operation} (hread : operation.IsRead)
    (hroom : operation.reach ≤ cursor.remaining) (reading : Reading) :
    cursor.Yields operation reading ↔ operation.decode (cursor.ahead operation) = reading := by
  cases operation with
  | byte =>
      obtain ⟨byte, hbyte⟩ := exists_ahead_eq_singleton rfl hroom
      cases reading <;> simp [Yields, Operation.decode, hbyte, toWord_singleton]
  | flag =>
      obtain ⟨byte, hbyte⟩ := exists_ahead_eq_singleton rfl hroom
      have hzero : byte.toNat = 0 ↔ byte = 0 := UInt8.toNat_inj (b := 0)
      cases reading with
      | flag value =>
          cases value <;> simp [Yields, Operation.decode, hbyte, toWord_singleton, hzero]
      | _ => simp [Yields, Operation.decode]
  | half =>
      cases reading with
      | half value =>
          have hlt := Bytes.toWord_lt hostOrder (cursor.ahead .half)
          rw [length_ahead hroom] at hlt
          have hvalue : (UInt32.ofNat (Bytes.toWord hostOrder (cursor.ahead .half))).toNat =
              Bytes.toWord hostOrder (cursor.ahead .half) := UInt32.toNat_ofNat_of_lt' hlt
          rw [Operation.decode, Reading.half.injEq, ← UInt32.toNat_inj, hvalue]
          exact eq_comm
      | _ => simp [Yields, Operation.decode]
  | word =>
      cases reading with
      | word value =>
          rw [Operation.decode, Reading.word.injEq, ← UInt64.toNat_inj, toNat_word_ahead rfl hroom]
          exact eq_comm
      | _ => simp [Yields, Operation.decode]
  | bytes count => cases reading <;> simp [Yields, Operation.decode, eq_comm]
  | nameAt offset | name | hasRoom count least => exact hread.elim

/-! ## Steps -/

/-- Without the bytes that it reads an operation only says how many it wanted. -/
theorem takes_short {operation : Operation} (h : cursor.remaining < operation.reach) :
    cursor.Takes operation (.error (.unexpectedEnd cursor.offset operation.reach)) cursor where
  answer_iff := by simp [Nat.not_le_of_lt h]
  short _ := rfl
  moves := nofun
  stays _ _ _ := rfl
  behindWord := by
    rintro _ _ rfl hroom
    exact absurd hroom (Nat.not_le_of_lt h)

theorem takes_of_isRead (hin : cursor.offset ≤ cursor.length) {operation : Operation}
    (hread : operation.IsRead) :
    cursor.Takes operation (cursor.perform operation).1 (cursor.perform operation).2 := by
  rw [perform_of_isRead hin hread]
  by_cases hroom : operation.reach ≤ cursor.remaining
  · rw [if_pos hroom]
    constructor
    case answer_iff =>
      intro reading
      rw [yields_iff_of_isRead hread hroom reading, Except.ok.injEq, and_iff_right hroom]
    case short => exact fun h => absurd hroom (Nat.not_le_of_lt h)
    case moves => exact fun _ _ => rfl
    case stays => exact fun _ h => nomatch h
    case behindWord => exact fun _ h => nomatch h
  · rw [if_neg hroom]
    exact takes_short (Nat.lt_of_not_le hroom)

theorem takes_nameAt (cursor : Cursor) (offset : UInt64) :
    cursor.Takes (.nameAt offset) ((cursor.nameAt offset.toNat).map .name) cursor where
  answer_iff := by
    intro reading
    rw [Outcome.map_eq_ok]
    simp only [nameAt_eq_ok_iff]
    cases reading <;> simp [Yields, Operation.reach]
  short h := absurd h (Nat.not_lt_zero _)
  moves _ _ := rfl
  stays _ _ _ := rfl
  behindWord := nofun

theorem takes_hasRoom (cursor : Cursor) (count least : UInt64) :
    cursor.Takes (.hasRoom count least)
      (.ok (.room (cursor.hasRoom count.toNat least.toNat))) cursor where
  answer_iff := by
    intro reading
    cases reading with
    | room answer => cases answer <;> simp [Yields, Operation.reach, hasRoom]
    | _ => simp [Yields]
  short h := absurd h (Nat.not_lt_zero _)
  moves _ _ := rfl
  stays := nofun
  behindWord := nofun

/-- The offset word of a name is read as any other word. -/
theorem perform_name (hin : cursor.offset ≤ cursor.length) :
    cursor.perform .name =
      if 8 ≤ cursor.remaining then
        (((cursor.advance 8).nameAt (Bytes.toWord hostOrder (cursor.ahead .name))).map .name,
          cursor.advance 8)
      else (.error (.unexpectedEnd cursor.offset 8), cursor) := by
  have hbytes := readBytes_eq_of_within hin 8
  by_cases hroom : 8 ≤ cursor.remaining
  · have hoffset : (UInt64.ofNat (Bytes.toWord hostOrder (cursor.ahead .name))).toNat =
        Bytes.toWord hostOrder (cursor.ahead .name) := toNat_word_ahead rfl hroom
    rw [if_pos hroom] at hbytes ⊢
    rw [← hoffset]
    simp only [perform, readWord, readNumber, hostWidth, hbytes]
    rfl
  · rw [if_neg hroom] at hbytes ⊢
    simp only [perform, readWord, readNumber, hostWidth, hbytes]
    rfl

theorem takes_name (hin : cursor.offset ≤ cursor.length) :
    cursor.Takes .name (cursor.perform .name).1 (cursor.perform .name).2 := by
  rw [perform_name hin]
  by_cases hroom : 8 ≤ cursor.remaining
  · rw [if_pos hroom]
    constructor
    case answer_iff =>
      intro reading
      rw [Outcome.map_eq_ok]
      simp only [nameAt_eq_ok_iff, content_advance, copies_advance]
      cases reading <;> simp [Yields, Operation.reach, hroom, hostOrder]
    case short => exact fun h => absurd hroom (Nat.not_le_of_lt h)
    case moves => exact fun _ _ => rfl
    case stays => exact fun _ _ h => absurd hroom (Nat.not_le_of_lt (h rfl))
    case behindWord => exact fun _ _ _ _ => rfl
  · rw [if_neg hroom]
    exact takes_short (Nat.lt_of_not_le hroom)

theorem takes_perform (hin : cursor.offset ≤ cursor.length) (operation : Operation) :
    cursor.Takes operation (cursor.perform operation).1 (cursor.perform operation).2 := by
  cases operation with
  | byte | flag | half | word | bytes count => exact takes_of_isRead hin trivial
  | nameAt offset => exact takes_nameAt cursor offset
  | name => exact takes_name hin
  | hasRoom count least => exact takes_hasRoom cursor count least

/-! ## Runs -/

/-- A cursor of a buffer that stands at most at its end. -/
structure Within (payload : Bytes) (copies : Bool) (cursor : Cursor) : Prop where
  content : cursor.content = payload
  copies : cursor.copies = copies
  offset_le : cursor.offset ≤ cursor.length

variable {payload : Bytes} {copies : Bool}

theorem Within.add_remaining (h : Within payload copies cursor) :
    cursor.offset + cursor.remaining = payload.length := by
  have hlength := length_content cursor
  have hle := h.offset_le
  rw [h.content] at hlength
  unfold remaining
  omega

theorem within_start (payload : Bytes) (copies : Bool) :
    Within payload copies (start payload copies) :=
  ⟨rfl, rfl, Nat.zero_le _⟩

theorem Within.advance (h : Within payload copies cursor) {count : Nat}
    (hcount : count ≤ cursor.remaining) : Within payload copies (cursor.advance count) where
  content := h.content
  copies := h.copies
  offset_le := by
    have hle := h.offset_le
    unfold remaining at hcount
    show cursor.offset + count ≤ cursor.length
    omega

theorem Takes.within {operation : Operation} {answer : Except BlobError Reading} {next : Cursor}
    (h : cursor.Takes operation answer next) (hin : Within payload copies cursor) :
    Within payload copies next := by
  cases answer with
  | ok reading =>
      rw [h.moves reading rfl]
      exact hin.advance ((h.answer_iff reading).mp rfl).1
  | error fault =>
      -- The one fault that moves the cursor is that of a name whose word is there.
      by_cases hword : operation = .name ∧ 8 ≤ cursor.remaining
      · rw [h.behindWord fault rfl hword.1 hword.2]
        exact hin.advance hword.2
      · rw [h.stays fault rfl fun hname => Nat.lt_of_not_le fun hle => hword ⟨hname, hle⟩]
        exact hin

theorem Within.run (h : Within payload copies cursor) (operations : List Operation) :
    Within payload copies (cursor.run operations).2 := by
  unfold Cursor.run
  induction operations generalizing cursor with
  | nil => exact h
  | cons operation later ih => exact ih ((takes_perform h.offset_le operation).within h)

end Cursor

/-! ## Machine words -/

namespace MachineWord

/-- Up to a bound that is a word itself, no exact result is lost. -/
theorem filter_checked? {exact : Nat} {formed : UInt64}
    (hformed : formed.toNat = exact % UInt64.size) (bound : UInt64) :
    (checked? exact formed).filter (· ≤ bound) =
      if exact ≤ bound.toNat then some formed else none := by
  have hbound : bound.toNat < UInt64.size := bound.toNat_lt
  unfold checked?
  by_cases hfits : exact < UInt64.size
  · rw [Nat.mod_eq_of_lt hfits] at hformed
    rw [if_pos hfits, Option.filter_some]
    simp only [UInt64.le_iff_toNat_le, hformed, decide_eq_true_eq]
  · rw [if_neg hfits, Option.filter_none, if_neg (by omega)]

theorem any_checked? {exact : Nat} {formed : UInt64}
    (hformed : formed.toNat = exact % UInt64.size) (bound : UInt64) :
    (checked? exact formed).any (· ≤ bound) = decide (exact ≤ bound.toNat) := by
  rw [← Option.isSome_filter, filter_checked? hformed]
  split <;> simp_all

end MachineWord

namespace MachineCursor

variable {cursor : MachineCursor}

theorem offset_exact (cursor : MachineCursor) : cursor.exact.offset = cursor.offset.toNat := rfl

theorem toNat_length (hsize : cursor.buffer.size < UInt64.size) :
    cursor.length.toNat = cursor.exact.length :=
  UInt64.toNat_ofNat_of_lt' hsize

theorem toNat_remaining (hsize : cursor.buffer.size < UInt64.size) :
    cursor.remaining.toNat = cursor.exact.remaining := by
  have hlength := toNat_length hsize
  unfold remaining Cursor.remaining
  rw [← hlength]
  split
  · next hle => exact UInt64.toNat_sub_of_le _ _ hle
  · next hbehind =>
      rw [UInt64.le_iff_toNat_le] at hbehind
      show 0 = cursor.length.toNat - cursor.offset.toNat
      omega

theorem hasRoom_eq (hsize : cursor.buffer.size < UInt64.size) (count least : UInt64) :
    cursor.hasRoom count least = cursor.exact.hasRoom count.toNat least.toNat := by
  rw [hasRoom, MachineWord.product?, MachineWord.any_checked? (UInt64.toNat_mul count least),
    toNat_remaining hsize, Cursor.hasRoom]

theorem readBytes_exact (hsize : cursor.buffer.size < UInt64.size) (count : UInt64) :
    cursor.exact.readBytes count.toNat =
      (cursor.readBytes count).map fun read => (read.1, read.2.exact) := by
  have hlength := toNat_length hsize
  have hsum := UInt64.toNat_add cursor.offset count
  unfold readBytes Cursor.readBytes
  rw [MachineWord.sum?, MachineWord.filter_checked? hsum, hlength]
  by_cases hin : cursor.offset.toNat + count.toNat ≤ cursor.exact.length
  · have hstop : (cursor.offset + count).toNat = cursor.offset.toNat + count.toNat := by
      rw [hsum]
      exact Nat.mod_eq_of_lt (Nat.lt_of_le_of_lt hin hsize)
    have hexact : cursor.exact.offset + count.toNat ≤ cursor.exact.length := hin
    rw [if_pos hin, if_pos hexact]
    simp only [Except.map, hstop, exact]
  · have hexact : ¬ cursor.exact.offset + count.toNat ≤ cursor.exact.length := hin
    rw [if_neg hin, if_neg hexact]
    rfl

theorem readNumber_exact (hsize : cursor.buffer.size < UInt64.size) (width : UInt64) :
    cursor.exact.readNumber width.toNat =
      (cursor.readNumber width).map fun read => (read.1, read.2.exact) := by
  rw [Cursor.readNumber, readBytes_exact hsize, readNumber]
  cases cursor.readBytes width <;> rfl

theorem perform_exact (hsize : cursor.buffer.size < UInt64.size) (operation : Cursor.Operation) :
    cursor.exact.perform operation =
      ((cursor.perform operation).1, (cursor.perform operation).2.exact) := by
  cases operation with
  | byte | flag =>
      have hnumber : cursor.exact.readNumber 1 = _ := readNumber_exact hsize 1
      simp only [perform, Cursor.perform, Cursor.readByte, Cursor.readFlag, hnumber]
      cases cursor.readNumber 1 <;> rfl
  | half =>
      have hnumber : cursor.exact.readNumber 4 = _ := readNumber_exact hsize 4
      simp only [perform, Cursor.perform, Cursor.readHalf, hnumber]
      cases cursor.readNumber 4 <;> rfl
  | word | name =>
      have hnumber : cursor.exact.readNumber hostWidth = _ := readNumber_exact hsize 8
      simp only [perform, Cursor.perform, Cursor.readWord, hnumber]
      cases cursor.readNumber 8 <;> rfl
  | bytes count =>
      simp only [perform, Cursor.perform, readBytes_exact hsize]
      cases cursor.readBytes count <;> rfl
  | nameAt offset => rfl
  | hasRoom count least => rw [perform, Cursor.perform, hasRoom_eq hsize]

variable {payload : Bytes} {copies : Bool}

theorem within_start (payload : Bytes) (copies : Bool) :
    (start payload copies).exact.Within payload copies :=
  Cursor.within_start payload copies

theorem size_buffer (h : cursor.exact.Within payload copies) :
    cursor.buffer.size = payload.length := by
  rw [← h.content, Cursor.length_content]
  rfl

/-- A run on machine words gives the answers of the exact run and ends where it ends. -/
theorem run_exact (hsize : payload.length < UInt64.size) (hin : cursor.exact.Within payload copies)
    (operations : List Cursor.Operation) :
    cursor.exact.run operations = ((cursor.run operations).1, (cursor.run operations).2.exact) := by
  unfold run Cursor.run
  -- That a position in the buffer is a word carries each step to the next.
  induction operations generalizing cursor with
  | nil => rfl
  | cons operation later ih =>
      have hstep := perform_exact (size_buffer hin ▸ hsize) operation
      have hnext := (Cursor.takes_perform hin.offset_le operation).within hin
      rw [hstep] at hnext
      rw [performAll_cons, performAll_cons, hstep, ih hnext]

end MachineCursor

namespace Cursor

/-- In a run over any buffer every operation is taken where the ones before it lead, which is
within the buffer. A cursor whose position, sums and products are machine words answers the same
and goes the same way. -/
theorem run_stands (payload : Bytes) (copies : Bool) :
    (∀ operations : List Operation,
      let cursor := ((start payload copies).run operations).2
      cursor.content = payload ∧ cursor.copies = copies ∧
        cursor.offset + cursor.remaining = payload.length) ∧
    (∀ (before : List Operation) (operation : Operation) (after : List Operation),
      ∃ answer,
        ((start payload copies).run (before ++ operation :: after)).1[before.length]? =
          some answer ∧
        ((start payload copies).run before).2.Takes operation answer
          ((start payload copies).run (before ++ [operation])).2) ∧
    (payload.length < UInt64.size → ∀ operations : List Operation,
      let machine := (MachineCursor.start payload copies).run operations
      machine.1 = ((start payload copies).run operations).1 ∧
        machine.2.exact = ((start payload copies).run operations).2 ∧
        machine.2.remaining.toNat = ((start payload copies).run operations).2.remaining) := by
  have hstart := within_start payload copies
  refine ⟨?_, ?_, ?_⟩
  · intro operations
    have hin := hstart.run operations
    exact ⟨hin.content, hin.copies, hin.add_remaining⟩
  · intro before operation after
    refine ⟨_, getElem?_performAll _ before operation after, ?_⟩
    have hnext : ((start payload copies).run (before ++ [operation])).2 =
        (((start payload copies).run before).2.perform operation).2 := by
      rw [run, performAll_append]
      rfl
    rw [hnext]
    exact takes_perform (hstart.run before).offset_le operation
  · intro hsize operations
    have hexact := MachineCursor.run_exact hsize (MachineCursor.within_start payload copies)
      operations
    have hexact : (start payload copies).run operations =
        (((MachineCursor.start payload copies).run operations).1,
          ((MachineCursor.start payload copies).run operations).2.exact) := hexact
    have hin := hstart.run operations
    rw [hexact] at hin ⊢
    exact ⟨rfl, rfl, MachineCursor.toNat_remaining (MachineCursor.size_buffer hin ▸ hsize)⟩

/-- A name without an end leaves the cursor behind its word. Lengths and counts that go round
in a machine word are refused where the cursor stands, and the byte behind is read. -/
theorem run_stands_unterminated :
    let payload : Bytes := [8, 0, 0, 0, 0, 0, 0, 0, 97]
    let operations : List Operation :=
      [.name, .bytes 18446744073709551615, .hasRoom 9223372036854775808 2, .byte, .half]
    payload.length < UInt64.size ∧
      ((MachineCursor.start payload false).run operations).1 =
        [.error (.unterminatedString 8), .error (.unexpectedEnd 8 18446744073709551615),
          .ok (.room false), .ok (.byte 97), .error (.unexpectedEnd 9 4)] ∧
      ((MachineCursor.start payload false).run operations).2.offset.toNat = 9 := by
  intro payload operations
  have hsize : payload.length < UInt64.size := by decide
  obtain ⟨hanswers, hstands, -⟩ := (run_stands payload false).2.2 hsize operations
  have hrun : (start payload false).run operations =
      ([.error (.unterminatedString 8), .error (.unexpectedEnd 8 18446744073709551615),
          .ok (.room false), .ok (.byte 97), .error (.unexpectedEnd 9 4)],
        ⟨#[8, 0, 0, 0, 0, 0, 0, 0, 97], 9, false⟩) := by decide +kernel
  rw [hrun] at hanswers hstands
  refine ⟨hsize, hanswers, ?_⟩
  rw [← MachineCursor.offset_exact, hstands]

end Cursor

end TypeAtlas
