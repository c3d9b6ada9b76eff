import TypeAtlas.Bytes
import TypeAtlas.Text.Quoted

/-!
# Blob errors

Why bytes cannot be decoded as a blob, or a value cannot be encoded into one, each with
the one text that reports it.
-/

namespace TypeAtlas

/-- What is wrong with the header of a framed blob, or with the target of a new one. -/
inductive HeaderFault where
  | unknownByteOrder (tag : UInt8)
  | foreignVersion (version : UInt8)
  | foreignWidth (width : UInt8)
  | foreignByteOrder (order : ByteOrder)
  | missingMagic
  | unsupportedWidth (width : UInt64)
  deriving DecidableEq, Repr

inductive BlobError where
  /-- A fixed-width read ran past the end. -/
  | unexpectedEnd (offset needed : Nat)
  /-- A name offset points outside the bytes. -/
  | stringOutOfRange (offset length : Nat)
  /-- No terminator stands at or after a name offset. -/
  | unterminatedString (offset : Nat)
  | invalidUtf8 (offset : Nat)
  | badHeader (fault : HeaderFault)
  /-- A value needs more bytes than a word of the target has. -/
  | valueOverflow (value : UInt64) (width : Nat)
  /-- A name holds the character that would end it. -/
  | interiorNul (text : String)
  deriving DecidableEq, Repr

namespace HeaderFault

def message : HeaderFault → String
  | unknownByteOrder tag => s!"unknown byte order tag {tag.toNat}"
  | foreignVersion version => s!"format version {version.toNat} (expected 1)"
  | foreignWidth width => s!"produced for {width.toNat}-byte pointers, host uses 8"
  | foreignByteOrder .big => "produced for Big byte order"
  | foreignByteOrder .little => "produced for Little byte order"
  | missingMagic => "missing header magic"
  | unsupportedWidth width => s!"unsupported pointer width {width.toNat}"

end HeaderFault

namespace BlobError

def message : BlobError → String
  | unexpectedEnd offset needed =>
    s!"unexpected end of blob at offset {offset} ({needed} bytes needed)"
  | stringOutOfRange offset length =>
    s!"string offset {offset} out of range (blob is {length} bytes)"
  | unterminatedString offset => s!"string at offset {offset} has no terminator"
  | invalidUtf8 offset => s!"string at offset {offset} is not valid UTF-8"
  | badHeader fault => s!"bad blob header: {fault.message}"
  | valueOverflow value width => s!"value {value.toNat} does not fit in {width} bytes"
  | interiorNul text => s!"name {Text.quote text} contains a NUL byte"

end BlobError

end TypeAtlas
