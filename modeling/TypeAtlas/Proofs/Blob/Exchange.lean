import Mathlib.Data.List.Forall2
import TypeAtlas.Blob.Exchange
import TypeAtlas.Proofs.Blob.Passage
import TypeAtlas.Proofs.Blob.Words

/-!
# Writing and reading back

A run of writes appends the bytes of those that are admitted, one behind the other, and nothing
else. A cursor that asks for the same kinds passes over one of these strings with each request,
so on the host every value comes back and nothing is left over.
-/

namespace TypeAtlas

/-! ## Runs -/

section Runs

variable {perform : σ → ι → α × σ}

@[simp] theorem performAll_nil (state : σ) : performAll perform state [] = ([], state) := rfl

theorem performAll_cons (state : σ) (operation : ι) (later : List ι) :
    performAll perform state (operation :: later) =
      ((perform state operation).1 :: (performAll perform (perform state operation).2 later).1,
        (performAll perform (perform state operation).2 later).2) := rfl

theorem performAll_append (state : σ) (before later : List ι) :
    performAll perform state (before ++ later) =
      ((performAll perform state before).1 ++
          (performAll perform (performAll perform state before).2 later).1,
        (performAll perform (performAll perform state before).2 later).2) := by
  induction before generalizing state with
  | nil => rfl
  | cons operation before ih => simp only [List.cons_append, performAll_cons, ih]

theorem length_performAll (state : σ) (operations : List ι) :
    (performAll perform state operations).1.length = operations.length := by
  induction operations generalizing state with
  | nil => rfl
  | cons operation later ih => simp only [performAll_cons, List.length_cons, ih]

/-- The answer to an operation is the one it has where the operations before it lead. -/
theorem getElem?_performAll (state : σ) (before : List ι) (operation : ι) (after : List ι) :
    (performAll perform state (before ++ operation :: after)).1[before.length]? =
      some (perform (performAll perform state before).2 operation).1 := by
  rw [performAll_append, performAll_cons,
    List.getElem?_append_right (Nat.le_of_eq (length_performAll state before)),
    length_performAll, Nat.sub_self]
  rfl

end Runs

/-! ## What a target admits -/

namespace Target

variable {target : Target} {stored : Bytes}

theorem toWord_ofNat (target : Target) (n : Nat) :
    Bytes.toWord target.order (target.ofNat n) = n % Bytes.wordCount target.width.bytes :=
  Bytes.toWord_ofWord target.order target.width.bytes n

/-- Every machine word fits eight bytes; four of them hold the numbers below their count. -/
theorem fits_toNat_iff (target : Target) (value : UInt64) :
    target.Fits value.toNat ↔ (target.width = .four → value.toNat < 4294967296) := by
  unfold Fits
  rw [target.width.wordCount_eq]
  cases target.width with
  | four => simp
  | eight => simpa using value.toNat_lt

theorem exists_word_iff {value : UInt64} :
    (∃ stored, target.word value = .ok stored) ↔
      (target.width = .four → value.toNat < 4294967296) := by
  simp only [word_eq_ok_iff, exists_and_left, exists_eq, and_true, fits_toNat_iff]

theorem exists_signedWord_iff {value : Int64} :
    (∃ stored, target.signedWord value = .ok stored) ↔
      (target.width = .four → -2147483648 ≤ value.toInt ∧ value.toInt < 4294967296) := by
  obtain ⟨width, order⟩ := target
  cases width with
  | four =>
      have hfits : fitsFour value = true ↔
          -2147483648 ≤ value.toInt ∧ value.toInt < 4294967296 := by
        simp [fitsFour]
      simp only [signedWord, ← hfits, forall_const]
      cases fitsFour value <;> simp
  | eight => simp [signedWord]

/-- Words hold signed numbers modulo the words that there are. -/
theorem toWord_signedWord {value : Int64} (h : target.signedWord value = .ok stored) :
    (Bytes.toWord target.order stored : Int) =
      value.toInt % Bytes.wordCount target.width.bytes := by
  have hnonneg : 0 ≤ value.toInt % Bytes.wordCount target.width.bytes :=
    Int.emod_nonneg _ (Int.natCast_ne_zero_iff_pos.mpr (Bytes.wordCount_pos _))
  rw [signedWord_eq_ok h, toWord_ofNat, Nat.mod_eq_of_lt (target.fits_signedNumber value),
    signedNumber, Int.toNat_of_nonneg hnonneg]

end Target

namespace Writer

variable {target : Target} {operation : Operation} {stored : Bytes}

theorem exists_encode_iff (target : Target) (operation : Operation) :
    (∃ stored, encode target operation = .ok stored) ↔ operation.Admitted target := by
  cases operation with
  | word value => exact Target.exists_word_iff
  | signed value => exact Target.exists_signedWord_iff
  | _ => simp [encode, Operation.Admitted]

theorem length_encode (h : encode target operation = .ok stored) :
    stored.length = operation.width target := by
  cases operation with
  | word value => exact Target.length_word h
  | signed value => exact Target.length_signedWord h
  | half value =>
      cases h
      exact target.length_half value
  | _ =>
      cases h
      rfl

theorem storedBy_encode (h : encode target operation = .ok stored) :
    operation.StoredBy target stored := by
  cases operation with
  | word value =>
      obtain ⟨hfits, rfl⟩ := Target.word_eq_ok_iff.mp h
      exact (target.toWord_ofNat value.toNat).trans (Nat.mod_eq_of_lt hfits)
  | signed value => exact Target.toWord_signedWord h
  | half value =>
      cases h
      exact (Bytes.toWord_ofWord target.order 4 value.toNat).trans (Nat.mod_eq_of_lt value.toNat_lt)
  | _ =>
      cases h
      rfl

/-! ## Runs of a writer -/

/-- What an operation leaves in the bytes of a writer: nothing if it is refused. -/
def kept (target : Target) (operation : Operation) : Bytes :=
  match encode target operation with
  | .ok stored => stored
  | .error _ => []

theorem kept_eq (h : encode target operation = .ok stored) : kept target operation = stored := by
  rw [kept, h]

theorem perform_eq (writer : Writer) (operation : Operation) :
    writer.perform operation =
      ((encode writer.target operation).map fun _ => (),
        { writer with bytes := writer.bytes ++ kept writer.target operation }) := by
  unfold perform write kept
  cases encode writer.target operation with
  | error fault => simp [Except.map]
  | ok stored => rfl

/-- A run appends what each of its operations leaves. -/
theorem run_eq (writer : Writer) (operations : List Operation) :
    writer.run operations =
      (operations.map fun operation => (encode writer.target operation).map fun _ => (),
        { writer with bytes := writer.bytes ++ operations.flatMap (kept writer.target) }) := by
  unfold run
  induction operations generalizing writer with
  | nil => simp
  | cons operation later ih => simp [performAll_cons, perform_eq, ih]

theorem takes_perform (writer : Writer) (operation : Operation) :
    writer.Takes operation (writer.perform operation).1 (writer.perform operation).2 := by
  rw [perform_eq]
  cases hencode : encode writer.target operation with
  | error fault =>
      have hrefused : ¬ operation.Admitted writer.target := by
        rw [← exists_encode_iff, hencode]
        simp
      refine ⟨by simp [Except.map, hrefused], by simp [Except.map], fun _ => ?_⟩
      simp [kept, hencode]
  | ok stored =>
      have hadmitted : operation.Admitted writer.target :=
        (exists_encode_iff writer.target operation).mp ⟨stored, hencode⟩
      refine ⟨by simp [Except.map, hadmitted], fun _ => ?_, by simp [Except.map]⟩
      exact ⟨stored, by rw [kept_eq hencode], length_encode hencode, storedBy_encode hencode⟩

/-- Each operation of a run is taken where the ones before it lead. -/
theorem takes_run (writer : Writer) (before : List Operation) (operation : Operation)
    (after : List Operation) :
    ∃ answer, (writer.run (before ++ operation :: after)).1[before.length]? = some answer ∧
      (writer.run before).2.Takes operation answer (writer.run (before ++ [operation])).2 := by
  refine ⟨_, getElem?_performAll writer before operation after, ?_⟩
  have hnext : (writer.run (before ++ [operation])).2 =
      ((writer.run before).2.perform operation).2 := by
    rw [run, performAll_append, performAll_cons]
    rfl
  rw [hnext]
  exact takes_perform _ operation

/-! ## Reading back -/

theorem encode_host (operation : Operation) : ∃ stored, encode .host operation = .ok stored := by
  rw [exists_encode_iff]
  cases operation <;> simp [Operation.Admitted, Target.host]

theorem kept_word (value : UInt64) :
    kept .host (.word value) = Target.host.ofNat value.toNat :=
  kept_eq (Target.word_eq_ok_iff.mpr ⟨value.toNat_lt, rfl⟩)

theorem kept_signed (value : Int64) :
    kept .host (.signed value) = Target.host.ofNat value.toUInt64.toNat := rfl

end Writer

namespace Cursor

variable {cursor next : Cursor}

/-- Behind a passage a cursor is still within its bytes. -/
theorem Passes.offset_le {bytes : Bytes} (h : cursor.Passes bytes next)
    (hin : cursor.offset ≤ cursor.length) : next.offset ≤ next.length := by
  have hle := h.length_le
  rw [h.length_eq, h.2, advance]
  unfold remaining at hle
  show cursor.offset + bytes.length ≤ cursor.length
  omega

theorem readBytes_of_passes {bytes : Bytes} (h : cursor.Passes bytes next)
    (hin : cursor.offset ≤ cursor.length) : cursor.readBytes bytes.length = .ok (bytes, next) := by
  obtain ⟨tail, htail⟩ := h.1
  have hstop : cursor.offset + bytes.length ≤ cursor.content.length := by
    have hle := h.length_le
    unfold remaining at hle
    rw [length_content]
    omega
  rw [readBytes_eq, if_pos hstop, ← rest, ← htail, List.take_left, h.2]
  rfl

/-- A request of the kind that was written passes over the bytes of the value and yields it. -/
theorem perform_of_asked {operation : Writer.Operation} {request : Operation}
    (hasked : operation.AskedBy request) (hin : cursor.offset ≤ cursor.length)
    (h : cursor.Passes (Writer.kept .host operation) next) :
    ∃ reading, cursor.perform request = (.ok reading, next) ∧ operation.GivenBackBy reading := by
  cases operation <;> cases request <;> try contradiction
  case byte.byte value =>
    refine ⟨.byte value, ?_, rfl⟩
    rw [perform, readByte_eq_ok_iff.mpr h, settle]
  case flag.flag value =>
    have hread : cursor.readFlag = .ok (value, next) :=
      readFlag_eq_ok_iff.mpr ⟨_, by cases value <;> rfl, h⟩
    refine ⟨.flag value, ?_, rfl⟩
    rw [perform, hread, settle]
  case half.half value =>
    refine ⟨.half value, ?_, rfl⟩
    rw [perform, readHalf_eq_ok_iff.mpr h, settle]
  case word.word value =>
    rw [Writer.kept_word] at h
    refine ⟨.word value, ?_, rfl⟩
    rw [perform, readWord_eq_ok_iff.mpr h, settle]
  case signed.word value =>
    rw [Writer.kept_signed] at h
    refine ⟨.word value.toUInt64, ?_, by simp [Writer.Operation.GivenBackBy]⟩
    rw [perform, readWord_eq_ok_iff.mpr h, settle]
  case bytes.bytes value count =>
    have hcount : count.toNat = value.length := hasked
    have hread : cursor.readBytes value.length = .ok (value, next) := readBytes_of_passes h hin
    refine ⟨.bytes value, ?_, rfl⟩
    rw [perform, hcount, hread, settle]

theorem run_of_asked {operations : List Writer.Operation} {requests : List Operation}
    (hasked : List.Forall₂ Writer.Operation.AskedBy operations requests)
    (hin : cursor.offset ≤ cursor.length)
    (h : cursor.Passes (operations.flatMap (Writer.kept .host)) next) :
    ∃ readings, cursor.run requests = (readings.map .ok, next) ∧
      List.Forall₂ Writer.Operation.GivenBackBy operations readings := by
  unfold run
  induction hasked generalizing cursor with
  | nil =>
      rw [List.flatMap_nil, passes_nil] at h
      exact ⟨[], by rw [h]; rfl, .nil⟩
  | cons hfirst _ ih =>
      rw [List.flatMap_cons, passes_append] at h
      obtain ⟨middle, hfront, hback⟩ := h
      obtain ⟨reading, hperform, hback₁⟩ := perform_of_asked hfirst hin hfront
      obtain ⟨readings, hrun, hback₂⟩ := ih (hfront.offset_le hin) hback
      refine ⟨reading :: readings, ?_, .cons hback₁ hback₂⟩
      rw [performAll_cons, hperform, hrun, List.map_cons]

/-- A cursor at the front passes over all there is and is then at the end. -/
theorem passes_start (payload : Bytes) (copies : Bool) :
    (start payload copies).Passes payload ((start payload copies).advance payload.length) :=
  ⟨List.prefix_rfl, rfl⟩

theorem atEnd_advance_start (payload : Bytes) (copies : Bool) :
    ((start payload copies).advance payload.length).atEnd = true := by
  simp [atEnd, advance, start, length]

end Cursor

/-- Whatever is written on the host comes back to a cursor that asks for the same kinds. -/
theorem Cursor.run_of_written {operations : List Writer.Operation} {requests : List Operation}
    (hasked : List.Forall₂ Writer.Operation.AskedBy operations requests) (copies : Bool) :
    ∃ readings next,
      (start (Writer.run ⟨.host, []⟩ operations).2.bytes copies).run requests =
        (readings.map .ok, next) ∧
      List.Forall₂ Writer.Operation.GivenBackBy operations readings ∧ next.atEnd = true := by
  rw [Writer.run_eq, List.nil_append]
  obtain ⟨readings, hrun, hback⟩ :=
    run_of_asked hasked (Nat.zero_le _) (passes_start _ copies)
  exact ⟨readings, _, hrun, hback, atEnd_advance_start _ copies⟩

/-- On the host every write is admitted and comes back to a cursor that asks for the same kinds,
which is then at the end. For any target each operation of a run is taken as the target allows:
one that is refused leaves nothing. -/
theorem Writer.run_exchanges :
    (∀ framed : Bool, ∃ writer, ofOptions ⟨8, .little, framed⟩ = .ok writer ∧
      ∀ (operations : List Operation) (requests : List Cursor.Operation) (copies : Bool),
        List.Forall₂ Operation.AskedBy operations requests →
        (∀ answer ∈ (writer.run operations).1, answer = .ok ()) ∧
        ∃ readings next,
          (Cursor.start (writer.run operations).2.bytes copies).run requests =
            (readings.map .ok, next) ∧
          List.Forall₂ Operation.GivenBackBy operations readings ∧ next.atEnd = true) ∧
    (∀ (options : WriterOptions) (writer : Writer), ofOptions options = .ok writer →
      options.pointerWidth = UInt64.ofNat writer.target.width.bytes ∧
      options.order = writer.target.order ∧
      ∀ (before : List Operation) (operation : Operation) (after : List Operation),
        (writer.run before).2.target = writer.target ∧
        ∃ answer, (writer.run (before ++ operation :: after)).1[before.length]? = some answer ∧
          (writer.run before).2.Takes operation answer
            (writer.run (before ++ [operation])).2) := by
  constructor
  · intro framed
    refine ⟨⟨.host, []⟩, rfl, ?_⟩
    intro operations requests copies hasked
    refine ⟨?_, Cursor.run_of_written hasked copies⟩
    intro answer hmem
    rw [run_eq, List.mem_map] at hmem
    obtain ⟨operation, -, rfl⟩ := hmem
    obtain ⟨stored, hstored⟩ := encode_host operation
    rw [hstored]
    rfl
  · intro options writer hwriter
    obtain ⟨target, htarget, rfl⟩ := Outcome.map_eq_ok.mp hwriter
    obtain ⟨hwidth, horder⟩ := Target.ofOptions_eq_ok_iff.mp htarget
    refine ⟨hwidth, horder, fun before operation after => ⟨?_, takes_run _ before operation after⟩⟩
    rw [run_eq]

/-- A flag, a negative number and two bytes come back on the host. With words of four bytes the
least number without a word is refused between two that are written. -/
theorem Writer.run_exchanges_mixed :
    (∃ readings next,
      (Cursor.start (Writer.run ⟨.host, []⟩ [.flag true, .signed (-1), .bytes [7, 8]]).2.bytes
          false).run [.flag, .word, .bytes 2] = (readings.map .ok, next) ∧
        List.Forall₂ Operation.GivenBackBy [.flag true, .signed (-1), .bytes [7, 8]] readings ∧
        next.atEnd = true) ∧
      (Writer.run ⟨⟨.four, .big⟩, []⟩ [.word 1, .signed 4294967296]).2 =
        (Writer.run ⟨⟨.four, .big⟩, []⟩ [.word 1]).2 ∧
      (Writer.run ⟨⟨.four, .big⟩, []⟩ [.word 1, .signed 4294967296, .signed (-1)]).2.bytes =
        [0, 0, 0, 1, 255, 255, 255, 255] := by
  refine ⟨?_, ?_, by decide⟩
  · obtain ⟨writer, hwriter, hback⟩ := run_exchanges.1 false
    have hhost : ofOptions ⟨8, .little, false⟩ = .ok ⟨.host, []⟩ := rfl
    cases Except.ok.inj (hwriter.symm.trans hhost)
    have hasked : List.Forall₂ Operation.AskedBy [.flag true, .signed (-1), .bytes [7, 8]]
        [.flag, .word, .bytes 2] := .cons trivial (.cons trivial (.cons rfl .nil))
    exact (hback _ _ false hasked).2
  · obtain ⟨-, -, htakes⟩ := run_exchanges.2 ⟨4, .big, false⟩ ⟨⟨.four, .big⟩, []⟩ rfl
    obtain ⟨-, answer, -, htaken⟩ := htakes [.word 1] (.signed 4294967296) []
    have hrefused : ¬ (Operation.signed 4294967296).Admitted ⟨.four, .big⟩ := by
      intro h
      exact absurd (h rfl).2 (by decide)
    exact htaken.keeps fun h => hrefused (htaken.accepted_iff.mp h)

end TypeAtlas
