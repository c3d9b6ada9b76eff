import TypeAtlas.Blob.Header

/-!
# Targets

The machine a blob is written for: the width of its words and the order of their bytes.
A word that does not fit the width is refused; signed words may also be given as the
unsigned word with the same digits.
-/

namespace TypeAtlas

structure WriterOptions where
  pointerWidth : UInt64
  order : ByteOrder
  /-- Put a header in front. -/
  framed : Bool
  deriving DecidableEq, Repr

namespace WriterOptions

/-- A bare payload for the host. -/
def host : WriterOptions := ⟨8, hostOrder, false⟩

end WriterOptions

inductive WordWidth where
  | four
  | eight
  deriving DecidableEq, Repr

structure Target where
  width : WordWidth
  order : ByteOrder
  deriving DecidableEq, Repr

namespace WordWidth

def bytes : WordWidth → Nat
  | four => 4
  | eight => 8

end WordWidth

namespace Target

def host : Target := ⟨.eight, hostOrder⟩

/-- The target that options name; words have four or eight bytes. -/
def ofOptions (options : WriterOptions) : Except BlobError Target :=
  if options.pointerWidth = 4 then .ok ⟨.four, options.order⟩
  else if options.pointerWidth = 8 then .ok ⟨.eight, options.order⟩
  else .error (.badHeader (.unsupportedWidth options.pointerWidth))

def half (target : Target) (value : UInt32) : Bytes :=
  Bytes.ofWord target.order 4 value.toNat

def word (target : Target) (value : UInt64) : Except BlobError Bytes :=
  if value.toNat < Bytes.wordCount target.width.bytes then
    .ok (Bytes.ofWord target.order target.width.bytes value.toNat)
  else .error (.valueOverflow value target.width.bytes)

/-- Does a four-byte word hold the value, as a signed or as an unsigned number? -/
def fitsFour (value : Int64) : Bool :=
  decide (-2147483648 ≤ value.toInt) && decide (value.toInt < 4294967296)

def signedWord (target : Target) (value : Int64) : Except BlobError Bytes :=
  match target.width with
  | .four =>
    if fitsFour value then .ok (Bytes.ofWord target.order 4 value.toUInt64.toNat)
    else .error (.valueOverflow value.toUInt64 4)
  | .eight => .ok (Bytes.ofWord target.order 8 value.toUInt64.toNat)

def header (target : Target) : Header :=
  ⟨formatVersion, UInt8.ofNat target.width.bytes, target.order⟩

theorem length_word {target : Target} {value : UInt64} {bytes : Bytes}
    (h : target.word value = .ok bytes) : bytes.length = target.width.bytes := by
  unfold word at h
  split at h
  · cases h
    simp
  · cases h

theorem length_signedWord {target : Target} {value : Int64} {bytes : Bytes}
    (h : target.signedWord value = .ok bytes) : bytes.length = target.width.bytes := by
  obtain ⟨width, order⟩ := target
  cases width <;> simp only [signedWord] at h
  · split at h
    · cases h
      simp [WordWidth.bytes]
    · cases h
  · cases h
    simp [WordWidth.bytes]

end Target

end TypeAtlas
