import TypeAtlas.Blob.Header

/-!
# Framed and bare payloads

What is behind the framing of some bytes is the bytes themselves or what follows the eight of
a header, and a header is found from its magic and the length of the bytes alone.
-/

namespace TypeAtlas

namespace Header

theorem ofBytes?_of_lt {bytes : Bytes} (hmagic : bytes.take 4 = headerMagic)
    (hcut : bytes.length < headerLength) :
    ofBytes? bytes =
      .error (.unexpectedEnd bytes.length (headerLength - bytes.length)) := by
  rw [ofBytes?, if_neg (not_not_intro hmagic)]
  split
  · next heq =>
      have hlength := congrArg List.length heq
      simp only [List.length_drop, List.length_cons] at hlength
      have hheader : headerLength = 8 := rfl
      omega
  · rfl

theorem ofBytes?_of_le {bytes : Bytes} (hmagic : bytes.take 4 = headerMagic)
    (hwhole : headerLength ≤ bytes.length) :
    ofBytes? bytes =
      match ByteOrder.ofTag? (bytes.getD 6 0) with
      | some order => .ok (some ⟨bytes.getD 4 0, bytes.getD 5 0, order⟩)
      | none => .error (.badHeader (.unknownByteOrder (bytes.getD 6 0))) := by
  have hbyte : ∀ position, bytes.getD (4 + position) 0 = (bytes.drop 4).getD position 0 := by
    intro position
    rw [List.getD_eq_getElem?_getD, List.getD_eq_getElem?_getD, List.getElem?_drop]
  have hrest : 4 ≤ (bytes.drop 4).length := by
    rw [List.length_drop]
    exact Nat.le_sub_of_add_le hwhole
  rw [ofBytes?, if_neg (not_not_intro hmagic), show 6 = 4 + 2 from rfl, hbyte 2,
    show 5 = 4 + 1 from rfl, hbyte 1, show bytes.getD 4 0 = _ from hbyte 0]
  split
  · next heq => rw [heq]; rfl
  · next hnone =>
      rcases hdrop : bytes.drop 4 with _ | ⟨version, _ | ⟨width, _ | ⟨tag, _ | ⟨zero, more⟩⟩⟩⟩
      · simp [hdrop] at hrest
      · simp [hdrop] at hrest
      · simp [hdrop] at hrest
      · simp [hdrop] at hrest
      · exact absurd hdrop (hnone version width tag zero more)

theorem ofBytes?_of_ne {bytes : Bytes} (h : bytes.take 4 ≠ headerMagic) :
    ofBytes? bytes = .ok none :=
  if_pos h

/-- Bytes behind a magic, or behind as many other letters, never change what is found. -/
theorem ofBytes?_append {bytes : Bytes} {found : Option Header} (h : ofBytes? bytes = .ok found)
    (hmagic : headerMagic.length ≤ bytes.length) (more : Bytes) :
    ofBytes? (bytes ++ more) = .ok found := by
  have htake : (bytes ++ more).take 4 = bytes.take 4 := List.take_append_of_le_length hmagic
  by_cases hfound : bytes.take 4 = headerMagic
  · have hdrop : (bytes ++ more).drop 4 = bytes.drop 4 ++ more :=
      List.drop_append_of_le_length hmagic
    rw [ofBytes?, if_neg (not_not_intro hfound)] at h
    rw [ofBytes?, htake, if_neg (not_not_intro hfound), hdrop]
    split at h
    · next heq =>
        rw [heq]
        exact h
    · cases h
  · rw [ofBytes?_of_ne hfound] at h
    rw [ofBytes?_of_ne (htake ▸ hfound), h]

theorem getElem?_eq_getD {bytes : Bytes} {position : Nat} (hwhole : headerLength ≤ bytes.length)
    (hin : position < headerLength) : bytes[position]? = some (bytes.getD position 0) := by
  rw [List.getD_eq_getElem?_getD, List.getElem?_eq_getElem (Nat.lt_of_lt_of_le hin hwhole)]
  rfl

theorem ofTag?_eq_some_iff {tag : UInt8} {order : ByteOrder} :
    ByteOrder.ofTag? tag = some order ↔ order.toTag = tag := by
  unfold ByteOrder.ofTag?
  cases order <;> grind [ByteOrder.toTag]

theorem ofTag?_eq_none_iff {tag : UInt8} :
    ByteOrder.ofTag? tag = none ↔ tag ≠ 0 ∧ tag ≠ 1 := by
  unfold ByteOrder.ofTag?
  grind

theorem length_of_ofBytes? {bytes : Bytes} {header : Header}
    (h : ofBytes? bytes = .ok (some header)) : headerLength ≤ bytes.length := by
  apply Nat.le_of_not_lt
  intro hcut
  by_cases hmagic : bytes.take 4 = headerMagic
  · rw [ofBytes?_of_lt hmagic hcut] at h
    cases h
  · rw [ofBytes?, if_pos hmagic] at h
    cases h

theorem take_ne_magic_of_ofBytes? {bytes : Bytes} (h : ofBytes? bytes = .ok none) :
    bytes.take 4 ≠ headerMagic := by
  intro hmagic
  rcases Nat.lt_or_ge bytes.length headerLength with hcut | hwhole
  · rw [ofBytes?_of_lt hmagic hcut] at h
    cases h
  · rw [ofBytes?_of_le hmagic hwhole] at h
    split at h <;> cases h

/-- A header that is found is what the bytes behind the magic say. -/
theorem getElem?_of_ofBytes? {bytes : Bytes} {header : Header}
    (h : ofBytes? bytes = .ok (some header)) :
    bytes.take 4 = headerMagic ∧ bytes[4]? = some header.version ∧
      bytes[5]? = some header.width ∧ bytes[6]? = some header.order.toTag := by
  have hwhole := length_of_ofBytes? h
  by_cases hmagic : bytes.take 4 = headerMagic
  · rw [ofBytes?_of_le hmagic hwhole] at h
    split at h
    · next order horder =>
        cases h
        rw [ofTag?_eq_some_iff.mp horder]
        exact ⟨hmagic, getElem?_eq_getD hwhole (by decide), getElem?_eq_getD hwhole (by decide),
          getElem?_eq_getD hwhole (by decide)⟩
    · cases h
  · rw [ofBytes?_of_ne hmagic] at h
    cases h

end Header

namespace Framing

variable {framing : Framing} {bytes payload : Bytes}

/-- Framings other than the bare one look for a header, and differ only if there is none. -/
theorem payload_of_ne_raw (h : framing ≠ .raw) :
    framing.payload bytes =
      match Header.ofBytes? bytes with
      | .error fault => .error fault
      | .ok (some header) =>
        match header.checkHost with
        | .error fault => .error fault
        | .ok () => .ok (bytes.drop headerLength)
      | .ok none =>
        if framing = .framed then .error (.badHeader .missingMagic) else .ok bytes := by
  cases framing with
  | raw => exact absurd rfl h
  | detect => rfl
  | framed => rfl

theorem payload_header (h : framing ≠ .raw) (payload : Bytes) :
    framing.payload (Header.host.toBytes ++ payload) = .ok payload := by
  have hheader := Header.ofBytes?_toBytes_append .host payload
  have hdrop : (Header.host.toBytes ++ payload).drop headerLength = payload :=
    List.drop_left' (Header.length_toBytes .host)
  simp only [payload_of_ne_raw h, hheader, Header.checkHost_host, hdrop]

/-- What is behind the framing are all bytes, where none is looked for or none is needed and
there is none, or else those behind a header that the host reads. -/
theorem payload_eq_ok_iff :
    framing.payload bytes = .ok payload ↔
      payload = bytes ∧ (framing = .raw ∨ framing = .detect ∧ Header.ofBytes? bytes = .ok none) ∨
      payload = bytes.drop headerLength ∧ framing ≠ .raw ∧
        ∃ header, Header.ofBytes? bytes = .ok (some header) ∧ header.checkHost = .ok () := by
  by_cases hraw : framing = .raw
  · subst hraw
    simp [Framing.payload, eq_comm]
  · rw [payload_of_ne_raw hraw]
    cases Header.ofBytes? bytes with
    | error fault => simp [hraw]
    | ok found =>
        cases found with
        | none => cases framing <;> simp_all [eq_comm]
        | some header => cases hcheck : header.checkHost <;> simp [hraw, hcheck, eq_comm]

/-- Where the magic does not stand, nothing is taken for a header. -/
theorem payload_detect_of_ne (h : bytes.take 4 ≠ headerMagic) :
    Framing.detect.payload bytes = .ok bytes :=
  payload_eq_ok_iff.mpr (.inl ⟨rfl, .inr ⟨rfl, Header.ofBytes?_of_ne h⟩⟩)

/-- Bytes behind the framing are bytes behind the payload, once the magic is there or not. -/
theorem payload_append (h : framing.payload bytes = .ok payload)
    (hmagic : headerMagic.length ≤ bytes.length) (more : Bytes) :
    framing.payload (bytes ++ more) = .ok (payload ++ more) := by
  rw [payload_eq_ok_iff] at h ⊢
  rcases h with ⟨rfl, hraw | ⟨hdetect, hnone⟩⟩ | ⟨rfl, hne, header, hheader, hcheck⟩
  · exact .inl ⟨rfl, .inl hraw⟩
  · exact .inl ⟨rfl, .inr ⟨hdetect, Header.ofBytes?_append hnone hmagic more⟩⟩
  · have hwhole := Header.length_of_ofBytes? hheader
    refine .inr ⟨?_, hne, header, Header.ofBytes?_append hheader hmagic more, hcheck⟩
    rw [List.drop_append_of_le_length hwhole]

theorem length_payload_le (h : framing.payload bytes = .ok payload) :
    payload.length ≤ bytes.length := by
  rcases payload_eq_ok_iff.mp h with ⟨rfl, -⟩ | ⟨rfl, -⟩
  · exact Nat.le_refl _
  · rw [List.length_drop]
    exact Nat.sub_le _ _

end Framing

end TypeAtlas
