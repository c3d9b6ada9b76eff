import TypeAtlas.Blob.Cursor
import TypeAtlas.Blob.TypeTable
import TypeAtlas.Proofs.Outcome

/-!
# Passages of a cursor

Every read of a cursor that succeeds passes over the bytes of what it yields, and every such
passage is a successful read. A reading of several parts is then a passage over their bytes
one behind the other.
-/

namespace TypeAtlas.Cursor

def rest (cursor : Cursor) : Bytes := cursor.content.drop cursor.offset

def advance (cursor : Cursor) (count : Nat) : Cursor :=
  { cursor with offset := cursor.offset + count }

/-- Some bytes lie in front of a cursor, and the next cursor stands behind them. -/
def Passes (cursor : Cursor) (bytes : Bytes) (next : Cursor) : Prop :=
  bytes <+: cursor.rest ∧ next = cursor.advance bytes.length

@[simp] theorem content_advance (cursor : Cursor) (count : Nat) :
    (cursor.advance count).content = cursor.content := rfl

@[simp] theorem copies_advance (cursor : Cursor) (count : Nat) :
    (cursor.advance count).copies = cursor.copies := rfl

theorem rest_advance (cursor : Cursor) (count : Nat) :
    (cursor.advance count).rest = cursor.rest.drop count := by
  simp [rest, advance, content, List.drop_drop]

@[simp] theorem length_rest (cursor : Cursor) : cursor.rest.length = cursor.remaining := by
  simp [rest, remaining]

namespace Passes

variable {cursor middle next : Cursor} {bytes front back : Bytes}

theorem content_eq (h : cursor.Passes bytes next) : next.content = cursor.content := by
  rw [h.2, content_advance]

theorem length_eq (h : cursor.Passes bytes next) : next.length = cursor.length := by
  rw [← length_content, h.content_eq, length_content]

theorem copies_eq (h : cursor.Passes bytes next) : next.copies = cursor.copies := by
  rw [h.2, copies_advance]

theorem rest_eq (h : cursor.Passes bytes next) : cursor.rest = bytes ++ next.rest := by
  obtain ⟨⟨tail, htail⟩, rfl⟩ := h
  rw [rest_advance, ← htail, List.drop_left]

/-- What has been passed was there. -/
theorem length_le (h : cursor.Passes bytes next) : bytes.length ≤ cursor.remaining := by
  have hle := h.1.length_le
  rwa [length_rest] at hle

end Passes

theorem passes_nil {cursor next : Cursor} : cursor.Passes [] next ↔ next = cursor :=
  ⟨fun h => h.2, fun h => ⟨List.nil_prefix, h⟩⟩

/-- A passage over two strings of bytes is a passage over one and then the other. -/
theorem passes_append {cursor next : Cursor} {front back : Bytes} :
    cursor.Passes (front ++ back) next ↔
      ∃ middle, cursor.Passes front middle ∧ middle.Passes back next := by
  constructor
  · intro h
    obtain ⟨⟨tail, htail⟩, rfl⟩ := h
    have hfront : cursor.Passes front (cursor.advance front.length) :=
      ⟨⟨back ++ tail, by rw [← htail, List.append_assoc]⟩, rfl⟩
    refine ⟨_, hfront, ⟨tail, ?_⟩, ?_⟩
    · rw [rest_advance, ← htail, List.append_assoc, List.drop_left]
    · simp [advance, Nat.add_assoc]
  · intro h
    obtain ⟨middle, hfront, ⟨tail, htail⟩, rfl⟩ := h
    refine ⟨⟨tail, ?_⟩, ?_⟩
    · rw [hfront.rest_eq, ← htail, List.append_assoc]
    · rw [hfront.2]
      simp [advance, Nat.add_assoc]

theorem passes_cons_append {cursor next : Cursor} {byte : UInt8} {front back : Bytes} :
    cursor.Passes (byte :: (front ++ back)) next ↔
      ∃ middle, cursor.Passes [byte] middle ∧ middle.Passes (front ++ back) next :=
  @passes_append cursor next [byte] (front ++ back)

/-! ## Fixed-width reads -/

variable {cursor next : Cursor}

theorem readBytes_eq_ok_iff {count : Nat} (hcount : 0 < count) {bytes : Bytes} :
    cursor.readBytes count = .ok (bytes, next) ↔
      bytes.length = count ∧ cursor.Passes bytes next := by
  rw [readBytes_eq]
  constructor
  · intro h
    split at h
    · next hin =>
        cases h
        have hlen : ((cursor.content.drop cursor.offset).take count).length = count := by
          rw [List.length_take, List.length_drop]
          omega
        exact ⟨hlen, List.take_prefix count _, by rw [hlen]; rfl⟩
    · cases h
  · intro h
    obtain ⟨rfl, ⟨tail, htail⟩, rfl⟩ := h
    have hlen := congrArg List.length htail
    rw [List.length_append, rest, List.length_drop] at hlen
    rw [if_pos (by omega), ← rest, ← htail, List.take_left]
    rfl

theorem readNumber_eq_ok_iff {width : Nat} (hwidth : 0 < width) {number : Nat} :
    cursor.readNumber width = .ok (number, next) ↔
      number < Bytes.wordCount width ∧
        cursor.Passes (Bytes.ofWord hostOrder width number) next := by
  rw [readNumber, Outcome.map_eq_ok]
  constructor
  · intro h
    obtain ⟨⟨bytes, behind⟩, hread, hpair⟩ := h
    cases hpair
    obtain ⟨rfl, hpass⟩ := (readBytes_eq_ok_iff hwidth).mp hread
    refine ⟨Bytes.toWord_lt hostOrder bytes, ?_⟩
    rwa [Bytes.ofWord_toWord]
  · intro h
    obtain ⟨hlt, hpass⟩ := h
    refine ⟨(_, next), (readBytes_eq_ok_iff hwidth).mpr ⟨by simp, hpass⟩, ?_⟩
    simp only [Bytes.toWord_ofWord, Nat.mod_eq_of_lt hlt]

theorem readWord_eq_ok_iff {value : UInt64} :
    cursor.readWord = .ok (value, next) ↔
      cursor.Passes (Target.host.ofNat value.toNat) next := by
  rw [readWord, Outcome.map_eq_ok]
  constructor
  · intro h
    obtain ⟨⟨number, behind⟩, hread, hpair⟩ := h
    cases hpair
    obtain ⟨hlt, hpass⟩ := (readNumber_eq_ok_iff (by decide)).mp hread
    rwa [UInt64.toNat_ofNat_of_lt' hlt]
  · intro h
    exact ⟨(value.toNat, next), (readNumber_eq_ok_iff (by decide)).mpr ⟨value.toNat_lt, h⟩,
      by simp⟩

theorem readWord_of_passes {n : Nat} (hfits : Target.host.Fits n)
    (h : cursor.Passes (Target.host.ofNat n) next) :
    cursor.readWord = .ok (UInt64.ofNat n, next) := by
  rw [readWord_eq_ok_iff, UInt64.toNat_ofNat_of_lt' hfits]
  exact h

theorem readHalf_eq_ok_iff {value : UInt32} :
    cursor.readHalf = .ok (value, next) ↔ cursor.Passes (Target.host.half value) next := by
  rw [readHalf, Outcome.map_eq_ok]
  constructor
  · intro h
    obtain ⟨⟨number, behind⟩, hread, hpair⟩ := h
    cases hpair
    obtain ⟨hlt, hpass⟩ := (readNumber_eq_ok_iff (by decide)).mp hread
    rwa [Target.half, UInt32.toNat_ofNat_of_lt' hlt]
  · intro h
    exact ⟨(value.toNat, next), (readNumber_eq_ok_iff (by decide)).mpr ⟨value.toNat_lt, h⟩,
      by simp⟩

theorem ofWord_one (byte : UInt8) : Bytes.ofWord hostOrder 1 byte.toNat = [byte] := by
  simp [Bytes.ofWord, hostOrder, ByteOrder.arrange, Bytes.digits]

theorem readByte_eq_ok_iff {byte : UInt8} :
    cursor.readByte = .ok (byte, next) ↔ cursor.Passes [byte] next := by
  rw [readByte, Outcome.map_eq_ok]
  constructor
  · intro h
    obtain ⟨⟨number, behind⟩, hread, hpair⟩ := h
    cases hpair
    exact ((readNumber_eq_ok_iff (by decide)).mp hread).2
  · intro h
    rw [← ofWord_one] at h
    exact ⟨(byte.toNat, next), (readNumber_eq_ok_iff (by decide)).mpr ⟨byte.toNat_lt, h⟩,
      by simp⟩

theorem readFlag_eq_ok_iff {flag : Bool} :
    cursor.readFlag = .ok (flag, next) ↔
      ∃ byte : UInt8, flag = (byte != 0) ∧ cursor.Passes [byte] next := by
  have hzero : ∀ byte : UInt8, (byte.toNat != 0) = (byte != 0) := by
    intro byte
    have hiff : byte.toNat = 0 ↔ byte = 0 := UInt8.toNat_inj (b := 0)
    rw [Bool.eq_iff_iff, bne_iff_ne, bne_iff_ne]
    exact not_congr hiff
  rw [readFlag, Outcome.map_eq_ok]
  constructor
  · intro h
    obtain ⟨⟨number, behind⟩, hread, hpair⟩ := h
    cases hpair
    obtain ⟨hlt, hpass⟩ := (readNumber_eq_ok_iff (by decide)).mp hread
    refine ⟨UInt8.ofNat number, ?_, hpass⟩
    rw [← hzero, UInt8.toNat_ofNat_of_lt' hlt]
  · intro h
    obtain ⟨byte, rfl, hpass⟩ := h
    rw [← ofWord_one] at hpass
    exact ⟨(byte.toNat, next), (readNumber_eq_ok_iff (by decide)).mpr ⟨byte.toNat_lt, hpass⟩,
      by simp only [hzero]⟩

/-- A name takes one word of the table, which says where its text stands. -/
theorem readName_eq_ok_iff {name : Name} :
    cursor.readName = .ok (name, next) ↔
      ∃ offset : UInt64, cursor.Passes (Target.host.ofNat offset.toNat) next ∧
        Bytes.TextAt cursor.content offset.toNat name.text ∧ name.owned = cursor.copies := by
  rw [readName, Outcome.bind_eq_ok]
  constructor
  · intro h
    obtain ⟨⟨offset, behind⟩, hword, hrest⟩ := h
    obtain ⟨found, hname, hpair⟩ := Outcome.bind_eq_ok.mp hrest
    cases Outcome.pure_eq_ok.mp hpair
    have hpass := readWord_eq_ok_iff.mp hword
    have htext := nameAt_eq_ok_iff.mp hname
    rw [hpass.content_eq, hpass.copies_eq] at htext
    exact ⟨offset, hpass, htext⟩
  · intro h
    obtain ⟨offset, hpass, htext⟩ := h
    refine ⟨(offset, next), readWord_eq_ok_iff.mpr hpass, ?_⟩
    rw [← hpass.content_eq, ← hpass.copies_eq] at htext
    exact Outcome.bind_eq_ok.mpr ⟨name, nameAt_eq_ok_iff.mpr htext, rfl⟩

theorem readName_of_passes {name : Name} {n : Nat} (hfits : Target.host.Fits n)
    (h : cursor.Passes (Target.host.ofNat n) next) (htext : Bytes.TextAt cursor.content n name.text)
    (howned : name.owned = cursor.copies) : cursor.readName = .ok (name, next) := by
  refine readName_eq_ok_iff.mpr ⟨UInt64.ofNat n, ?_, ?_, howned⟩
  · rwa [UInt64.toNat_ofNat_of_lt' hfits]
  · rwa [UInt64.toNat_ofNat_of_lt' hfits]

end TypeAtlas.Cursor
