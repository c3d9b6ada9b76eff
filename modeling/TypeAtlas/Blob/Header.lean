import TypeAtlas.Blob.Error

/-!
# Blob header and framing

A framed blob opens with eight bytes: a magic, the format version, the width of a word in
bytes, the byte order and one zero. The host here reads words of eight little-endian
bytes, and `payload` hands out what stands behind a header that agrees with it.
-/

namespace TypeAtlas

def headerMagic : Bytes := [0x43, 0x52, 0x46, 0x4C]

def headerLength : Nat := 8

def formatVersion : UInt8 := 1

def hostWidth : Nat := 8

def hostOrder : ByteOrder := .little

inductive Framing where
  /-- A header where the magic stands, the bare payload otherwise. -/
  | detect
  /-- The bare payload, whatever it starts with. -/
  | raw
  /-- A header is required. -/
  | framed
  deriving DecidableEq, Repr, Inhabited

structure Header where
  version : UInt8
  width : UInt8
  order : ByteOrder
  deriving DecidableEq, Repr

namespace ByteOrder

def toTag : ByteOrder → UInt8
  | .little => 0
  | .big => 1

def ofTag? (tag : UInt8) : Option ByteOrder :=
  if tag = 0 then some .little else if tag = 1 then some .big else none

end ByteOrder

namespace Header

def host : Header := ⟨formatVersion, 8, hostOrder⟩

def toBytes (header : Header) : Bytes :=
  headerMagic ++ [header.version, header.width, header.order.toTag, 0]

/-- The header at the front of some bytes; none if the magic does not stand there. -/
def ofBytes? (bytes : Bytes) : Except BlobError (Option Header) :=
  if bytes.take 4 ≠ headerMagic then .ok none
  else match bytes.drop 4 with
    | version :: width :: tag :: _ :: _ =>
      match ByteOrder.ofTag? tag with
      | some order => .ok (some ⟨version, width, order⟩)
      | none => .error (.badHeader (.unknownByteOrder tag))
    | _ => .error (.unexpectedEnd bytes.length (headerLength - bytes.length))

/-- Refuse a header whose words the host does not read. -/
def checkHost (header : Header) : Except BlobError Unit :=
  if header.version ≠ formatVersion then
    .error (.badHeader (.foreignVersion header.version))
  else if header.width.toNat ≠ hostWidth then
    .error (.badHeader (.foreignWidth header.width))
  else if header.order ≠ hostOrder then
    .error (.badHeader (.foreignByteOrder header.order))
  else .ok ()

theorem length_toBytes (header : Header) : header.toBytes.length = headerLength := by
  simp [toBytes, headerMagic, headerLength]

/-- A written header reads back, whatever follows it. -/
theorem ofBytes?_toBytes_append (header : Header) (rest : Bytes) :
    ofBytes? (header.toBytes ++ rest) = .ok (some header) := by
  obtain ⟨version, width, order⟩ := header
  cases order <;>
    simp [ofBytes?, toBytes, headerMagic, ByteOrder.ofTag?, ByteOrder.toTag]

theorem checkHost_host : host.checkHost = .ok () := rfl

end Header

/-- The bytes behind the framing, once the header is found good for the host. -/
def Framing.payload (framing : Framing) (bytes : Bytes) : Except BlobError Bytes :=
  match framing with
  | .raw => .ok bytes
  | .detect | .framed =>
    match Header.ofBytes? bytes with
    | .error fault => .error fault
    | .ok (some header) =>
      match header.checkHost with
      | .error fault => .error fault
      | .ok () => .ok (bytes.drop headerLength)
    | .ok none =>
      if framing = .framed then .error (.badHeader .missingMagic) else .ok bytes

end TypeAtlas
