import TypeAtlas.Blob.Encode
import TypeAtlas.Proofs.Registry.RoundTrip
import TypeAtlas.Proofs.Registry.Surroundings

/-!
# Blobs that are cut short

The pool of an encoded schema ends with the first use of a name, which the table points to. So a
part of the payload that still holds the table has lost the NUL of that name, and a shorter part
has lost the table. Where a header is cut, the letters that are left make no payload either.
-/

namespace TypeAtlas

/-- A text at the end of some bytes is closed by the last of them. -/
theorem Bytes.not_hasText_take {bytes : Bytes} {offset count : Nat} {text : String}
    (hplain : '\x00' ∉ text.toList) (hend : bytes.drop offset = Bytes.ofString text ++ [0])
    (hcut : count < bytes.length) : ¬ Bytes.HasText (bytes.take count) offset := by
  intro h
  obtain ⟨other, hother⟩ := h
  have hzero := (Bytes.textAt_iff.mp hother).1
  have hlength := congrArg List.length hend
  simp only [List.length_drop, List.length_append, List.length_cons, List.length_nil] at hlength
  have hshort : count - offset ≤ (Bytes.ofString text).length := by omega
  rw [List.drop_take, hend, List.take_append_of_le_length hshort] at hzero
  exact hplain ((Bytes.zero_mem_ofString text).mp (List.mem_of_mem_take hzero))

/-! ## The magic -/

/-- Whatever starts with the magic is long enough for it. -/
theorem take_magic_iff {bytes : Bytes} {count : Nat} :
    (bytes.take count).take 4 = headerMagic ↔ 4 ≤ count ∧ bytes.take 4 = headerMagic := by
  rw [List.take_take]
  by_cases hcount : 4 ≤ count
  · rw [Nat.min_eq_left hcount]
    simp [hcount]
  · constructor
    · intro h
      have hlength := congrArg List.length h
      simp only [List.length_take, headerMagic, List.length_cons, List.length_nil] at hlength
      omega
    · intro h
      exact absurd h.1 hcount

/-- A count that starts with the letters of the magic is that of a very long table. -/
theorem TypeTable.le_length_of_magic {table : TypeTable} {tail : Bytes}
    (h : (table.toBytes .host ++ tail).take 4 = headerMagic) :
    hostWidth + Bytes.value headerMagic * entryLeast ≤ (table.toBytes .host).length := by
  have hdigits : (table.toBytes .host ++ tail).take 4 =
      Bytes.digits 4 table.entries.length := rfl
  have hmod : table.entries.length % Bytes.wordCount 4 = Bytes.value headerMagic := by
    rw [← Bytes.value_digits, ← hdigits, h]
  have hcount : Bytes.value headerMagic ≤ table.entries.length := by
    rw [← hmod]
    exact Nat.mod_le _ _
  have hentries := Registry.length_mul_le_flatMap Registry.entryLeast_le table.entries
  have hall := Nat.mul_le_mul_right entryLeast hcount
  have hword : (Target.host.ofNat table.entries.length).length = hostWidth :=
    Target.length_ofNat ..
  rw [toBytes, List.length_append, hword]
  omega

/-! ## The last name -/

namespace Schema

variable {schema : Schema} {table pool : Bytes}

/-- The pool ends with a name that the table points to. -/
theorem Emitted.exists_last {target : Target} (h : schema.Emitted target table pool)
    (hpool : pool ≠ []) :
    ∃ name : String, '\x00' ∉ name.toList ∧
      schema.nameWord target.width.bytes name ∈
        (schema.typeTable target.width.bytes).nameOffsets ∧
      (table ++ pool).drop (schema.nameWord target.width.bytes name) =
        Bytes.ofString name ++ [0] := by
  rcases List.eq_nil_or_concat schema.writtenNames.eraseDups with hnil | ⟨front, name, hlast⟩
  · rw [h.pool_eq, poolBytes, hnil] at hpool
    exact absurd rfl hpool
  · have hdistinct := Keyed.nodup_eraseDups schema.writtenNames
    rw [hlast, List.concat_eq_append] at hdistinct
    have hnew : name ∉ front := by
      intro hmem
      exact (List.nodup_append.mp hdistinct).2.2 name hmem name List.mem_cons_self rfl
    have hwritten : name ∈ schema.writtenNames := by
      rw [← List.mem_eraseDups, hlast, List.concat_eq_append]
      exact List.mem_append_right front List.mem_cons_self
    refine ⟨name, h.plain name hwritten, ?_, ?_⟩
    · rw [nameOffsets_typeTable]
      exact List.mem_map_of_mem hwritten
    · have hplace : schema.poolOffset name = (pooled front).length := by
        have hsplit := placeIn_split hnew []
        rwa [← List.concat_eq_append, ← hlast] at hsplit
      rw [nameWord, ← h.length_table, hplace, ← List.drop_drop, List.drop_left, h.pool_eq,
        poolBytes, hlast, List.concat_eq_append, pooled_append, List.drop_left]
      simp [pooled]

/-- No part of the payload is accepted. -/
theorem Emitted.load_raw_take (h : schema.Emitted .host table pool)
    (hsize : table.length + pool.length < UInt64.size) {count : Nat} (hpos : 1 ≤ count)
    (hcut : count < (table ++ pool).length) (copies : Bool) (tag : UInt64) :
    ∃ fault, Registry.load ((table ++ pool).take count) ⟨copies, .raw⟩ tag = .error fault := by
  cases hload : Registry.load ((table ++ pool).take count) ⟨copies, .raw⟩ tag with
  | error fault => exact ⟨fault, rfl⟩
  | ok registry =>
      exfalso
      rcases Registry.load_raw_eq_ok_iff.mp hload with ⟨hempty, -⟩ | ⟨part, -, hstands, -⟩
      · have hlength := congrArg List.length hempty
        rw [List.length_take, List.length_nil] at hlength
        omega
      · -- What stands in the part is the whole table, so all of it is there.
        obtain ⟨rest, hread⟩ := hstands.reads
        cases TypeTable.eq_of_read?_take (h.laidOut hsize).reads hread
        have hwhole := TypeTable.length_of_read? hread
        have htable := congrArg List.length h.table_eq
        by_cases hpool : pool = []
        · rw [List.length_take] at hwhole
          rw [hpool, List.append_nil] at hcut
          simp only [Target.host, WordWidth.bytes] at hwhole htable
          omega
        · obtain ⟨name, hplain, hlisted, hend⟩ := h.exists_last hpool
          exact Bytes.not_hasText_take hplain hend hcut (hstands.names _ hlisted)

/-- Neither is a part of the payload where a header is looked for: none is found. -/
theorem Emitted.load_detect_take (h : schema.Emitted .host table pool)
    (hsize : table.length + pool.length < 31991924883) {count : Nat} (hpos : 1 ≤ count)
    (hcut : count < (table ++ pool).length) (copies : Bool) (tag : UInt64) :
    ∃ fault, Registry.load ((table ++ pool).take count) ⟨copies, .detect⟩ tag = .error fault := by
  have hmagic : ((table ++ pool).take count).take 4 ≠ headerMagic := by
    intro hfound
    have hwhole := (take_magic_iff.mp hfound).2
    rw [h.table_eq] at hwhole
    have hlong := TypeTable.le_length_of_magic hwhole
    rw [show hostWidth + Bytes.value headerMagic * entryLeast = 31991924883 by decide,
      ← h.table_eq] at hlong
    omega
  have hword : 31991924883 < UInt64.size := by decide
  rw [Registry.load_of_payload (Framing.payload_detect_of_ne hmagic)]
  exact h.load_raw_take (hsize.trans hword) hpos hcut copies tag

/-- A part that ends behind the header is a header with a part of the payload. -/
theorem Emitted.load_framed_take (h : schema.Emitted .host table pool)
    (hsize : table.length + pool.length < UInt64.size) {count : Nat} (hpos : headerLength < count)
    (hcut : count < (Header.host.toBytes ++ (table ++ pool)).length) (copies : Bool)
    (tag : UInt64) :
    ∃ fault, Registry.load ((Header.host.toBytes ++ (table ++ pool)).take count)
      ⟨copies, .detect⟩ tag = .error fault := by
  have hheader := Header.length_toBytes .host
  have htake : (Header.host.toBytes ++ (table ++ pool)).take count =
      Header.host.toBytes ++ (table ++ pool).take (count - headerLength) := by
    rw [List.take_append, hheader, List.take_of_length_le (by omega)]
  rw [List.length_append, hheader] at hcut
  rw [htake, Registry.load_of_payload (Framing.payload_header (by decide) _)]
  exact h.load_raw_take hsize (by omega) (by omega) copies tag

end Schema

namespace Registry

/-- The first bytes of a header make no payload: fewer than four are read bare and hold no count,
and behind the magic the others are missed. -/
theorem load_header_take {bytes : Bytes} (hmagic : bytes.take 4 = headerMagic) {count : Nat}
    (hpos : 1 ≤ count) (hcut : count < headerLength) (hwhole : count ≤ bytes.length)
    (copies : Bool) (tag : UInt64) :
    ∃ fault, load (bytes.take count) ⟨copies, .detect⟩ tag = .error fault := by
  have hlength : (bytes.take count).length = count := List.length_take_of_le hwhole
  by_cases hshort : count < 4
  · have hbare : (bytes.take count).take 4 ≠ headerMagic := by
      intro hfound
      exact absurd (take_magic_iff.mp hfound).1 (Nat.not_le.mpr hshort)
    rw [load_of_payload (Framing.payload_detect_of_ne hbare)]
    cases hload : load (bytes.take count) ⟨copies, .raw⟩ tag with
    | error fault => exact ⟨fault, rfl⟩
    | ok registry =>
        have hne : bytes.take count ≠ [] := List.ne_nil_of_length_pos (by omega)
        have hcount := hostWidth_le_of_load_raw hload hne
        simp only [hostWidth] at hcount
        omega
  · have hfound : (bytes.take count).take 4 = headerMagic :=
      take_magic_iff.mpr ⟨Nat.le_of_not_lt hshort, hmagic⟩
    have hheader := Header.ofBytes?_of_lt hfound (hlength.trans_lt hcut)
    have hfault : ∃ fault, Framing.detect.payload (bytes.take count) = .error fault := by
      rw [Framing.payload_of_ne_raw (by decide), hheader]
      exact ⟨_, rfl⟩
    obtain ⟨fault, hpayload⟩ := hfault
    exact ⟨.blob fault, load_of_payload_error hpayload copies tag⟩

/-- A part of an encoded schema is refused, but for a header that has lost all that is behind it.
A bare payload shorter than the bound does not start with the magic. -/
theorem load_truncated {schema : Schema} {framed : Bool} {bytes : Bytes}
    (hencode : schema.encode ⟨8, .little, framed⟩ = .ok bytes)
    (hsize : bytes.length < 31991924883) {count : Nat} (hpos : 1 ≤ count)
    (hcut : count < bytes.length) (tag : UInt64) :
    if framed = true ∧ count = headerLength then
      load (bytes.take count) .standard tag = .ok (empty tag)
    else ∃ fault, load (bytes.take count) .standard tag = .error fault := by
  obtain ⟨target, table, pool, htarget, -, hemitted, rfl⟩ := Schema.encode_eq_ok hencode
  cases htarget
  have hlength : table.length + pool.length < 31991924883 := by
    simp only [List.length_append] at hsize
    omega
  cases framed with
  | false =>
      rw [if_neg (by simp)]
      exact Schema.Emitted.load_detect_take hemitted hlength hpos hcut false tag
  | true =>
      have hheader : (Target.header ⟨.eight, .little⟩).toBytes = Header.host.toBytes := rfl
      simp only [if_true, hheader, true_and] at hcut ⊢
      by_cases hcount : count = headerLength
      · rw [if_pos hcount, hcount, List.take_left' (Header.length_toBytes .host)]
        rfl
      · rw [if_neg hcount]
        by_cases hbehind : headerLength < count
        · have hword : 31991924883 < UInt64.size := by decide
          exact Schema.Emitted.load_framed_take hemitted (hlength.trans hword) hbehind hcut false tag
        · exact load_header_take rfl hpos (by omega) (Nat.le_of_lt hcut) false tag

/-- The sample without its last byte, and without all that is behind its header. -/
theorem load_truncated_sample :
    ∃ bytes, Schema.sample.encode ⟨8, .little, true⟩ = .ok bytes ∧
      bytes.length < 31991924883 ∧ 227 < bytes.length ∧
      load (bytes.take 8) .standard 0 = .ok (empty 0) ∧
      ∃ fault, load (bytes.take 227) .standard 0 = .error fault := by
  have hencode : ∃ bytes, Schema.sample.encode ⟨8, .little, true⟩ = .ok bytes ∧
      bytes.length = 228 := by
    cbv
    exact ⟨_, rfl, rfl⟩
  obtain ⟨bytes, hbytes, hlength⟩ := hencode
  have hsize : bytes.length < 31991924883 := by omega
  have hcut : 227 < bytes.length := by omega
  have hheader := load_truncated hbytes hsize (show 1 ≤ 8 by decide) (by omega) 0
  have hlast := load_truncated hbytes hsize (show 1 ≤ 227 by decide) hcut 0
  rw [if_pos ⟨rfl, rfl⟩] at hheader
  rw [if_neg (by decide)] at hlast
  exact ⟨bytes, hbytes, hsize, hcut, hheader, hlast⟩

end Registry

end TypeAtlas
