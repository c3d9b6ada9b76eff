import TypeAtlas.Proofs.NameIndex.Insertion
import TypeAtlas.Proofs.Registry.Building
import TypeAtlas.Proofs.Registry.SafeReads

/-!
# Safe loads

A load meets every demand that it makes, whether it succeeds or fails. Room is reserved only
for counts that the bytes left can hold, records are pushed no more members than they were
announced, ids are checked before they are used as positions, and name indexes are sound.
-/

namespace TypeAtlas.Audited

variable {limit : Nat}

/-! ## Name indexes -/

/-- A walk stays on the nodes that a link leads through. -/
theorem met_walk {nodes : Array NameIndex.Node} {link : Option Nat} {positions : List Nat}
    (h : NameIndex.Linked nodes link positions) (text : String) {bound : Nat}
    (hbound : positions.length ≤ bound) :
    ∀ demand ∈ walk nodes text bound link, demand.Met limit := by
  induction positions generalizing link bound with
  | nil =>
      have hlink : link = none := h
      subst hlink
      intro demand hmem
      simp [walk] at hmem
  | cons position rest ih =>
      obtain ⟨rfl, next, hnext, hrest⟩ := h
      obtain ⟨node, hnode, rfl⟩ := Option.map_eq_some_iff.mp hnext
      cases bound with
      | zero => simp at hbound
      | succ bound =>
          have htail := ih hrest (Nat.le_of_succ_le_succ hbound)
          intro demand hmem
          simp only [walk, hnode] at hmem
          rcases List.mem_cons.mp hmem with rfl | hlater
          · exact (Array.getElem?_eq_some_iff.mp hnode).1
          · split at hlater
            · cases hlater
            · exact htail demand hlater

theorem met_search {table : NameIndex} (h : table.Sound) (text : String) :
    ∀ demand ∈ search table text, demand.Met limit := by
  have hbucket := h.bucketOf_lt text
  intro demand hmem
  rcases List.mem_cons.mp hmem with rfl | hlater
  · exact hbucket
  · have hlinked := h.linked (table.bucketOf text) hbucket
    cases hhead : (table.buckets[table.bucketOf text]?).join with
    | none =>
        simp only [hhead, List.mem_singleton] at hlater
        rw [hlater]
        exact hbucket
    | some head =>
        simp only [hhead] at hlater
        rw [hhead] at hlinked
        exact met_walk hlinked text (table.length_residents_le _) demand hlater

theorem safe_insert {table : NameIndex} (h : table.Sound) (name : Name) (id : Nat) :
    (insert table name id).Safe limit (.ok (table.insert name id)) := by
  apply Safe.after (met_search h name.text)
  exact safe_pure _

theorem safe_reserveNames {capacity : Nat} (hcapacity : capacity ≤ limit) (hlimit : 1 ≤ limit) :
    (reserveNames capacity).Safe limit (.ok ()) := by
  refine ⟨rfl, ?_⟩
  intro demand hmem
  rcases List.mem_cons.mp hmem with rfl | hlater
  · exact Nat.max_le.mpr ⟨hcapacity, hlimit⟩
  · rw [List.mem_singleton.mp hlater]
    exact Nat.le_trans (Nat.div_le_self capacity 2) hcapacity

/-! ## Members -/

/-- A record that still takes `count` members of one sort. -/
structure Expects (record : TypeRecord) (wrap : List α → Members) (count : Nat) : Prop where
  room : ∃ before, record.members = wrap before ∧ before.length + count ≤ record.capacity
  sound : ∀ index, record.memberIndex = some index → index.Sound

theorem met_indexMember {record : TypeRecord} {wrap : List α → Members} {count : Nat}
    (h : Expects record wrap count) (name : Name) (taken : Bool) :
    ∀ demand ∈ indexMember record name taken, demand.Met limit := by
  intro demand hmem
  unfold indexMember at hmem
  split at hmem
  · next index hindex => exact met_search (h.sound index hindex) name.text demand hmem
  · cases hmem

theorem safe_push {record : TypeRecord} {wrap : List α → Members} {count : Nat}
    (h : Expects record wrap count) (name : Name) {answer : Bool × TypeRecord}
    (htaken : answer.1 = true) : (push record name answer).Safe limit (.ok answer.2) := by
  apply Safe.after (met_indexMember h name answer.1)
  apply Safe.after_one
  · exact htaken
  · exact safe_pure _

/-- A record with one more member expects one less. -/
theorem Expects.pushed {record : TypeRecord} {wrap : List α → Members} {count : Nat}
    (h : Expects record wrap (count + 1)) {before : List α}
    (hroom : before.length + (count + 1) ≤ record.capacity) (name : Name) (member : α) :
    Expects { record with
      members := wrap (before ++ [member])
      memberIndex := record.memberIndex.map (·.insert name before.length) } wrap count := by
  constructor
  · refine ⟨before ++ [member], rfl, ?_⟩
    rw [List.length_append, List.length_singleton]
    exact Nat.le_trans (by omega) hroom
  · intro index hindex
    obtain ⟨old, hold, rfl⟩ := Option.map_eq_some_iff.mp hindex
    exact (h.sound old hold).insert name before.length

theorem safe_pushField {record : TypeRecord} {count : Nat}
    (h : Expects record .fields (count + 1)) (field : Field) :
    (pushField record field).Safe limit (.ok (record.pushField field).2) ∧
      Expects (record.pushField field).2 .fields count := by
  obtain ⟨before, hmembers, hroom⟩ := h.room
  have hpush := TypeRecord.pushField_of_lt hmembers (by omega) field
  constructor
  · exact safe_push h field.name (congrArg Prod.fst hpush)
  · rw [hpush]
    exact h.pushed hroom field.name field

theorem safe_pushEnumerator {record : TypeRecord} {count : Nat}
    (h : Expects record .enumerators (count + 1)) (enumerator : Enumerator) :
    (pushEnumerator record enumerator).Safe limit (.ok (record.pushEnumerator enumerator).2) ∧
      Expects (record.pushEnumerator enumerator).2 .enumerators count := by
  obtain ⟨before, hmembers, hroom⟩ := h.room
  have hpush := TypeRecord.pushEnumerator_of_lt hmembers (by omega) enumerator
  constructor
  · exact safe_push h enumerator.name (congrArg Prod.fst hpush)
  · rw [hpush]
    exact h.pushed hroom enumerator.name enumerator

/-! ## Repeated reads -/

theorem readMany_succ_foldl (bare : Cursor → Except LoadError (α × Cursor)) (add : β → α → β)
    (count : Nat) (target : β) (cursor : Cursor) :
    (do
      let (values, behind) ← Registry.readMany bare (count + 1) cursor
      return (values.foldl add target, behind)) = (do
      let (value, next) ← bare cursor
      let (values, behind) ← Registry.readMany bare count next
      return (values.foldl add (add target value), behind)) := by
  simp only [Registry.readMany, bind_assoc, pure_bind, List.foldl_cons]

/-- What is read goes into the target at once, or all of it afterwards. -/
theorem safe_readInto {read : Cursor → Audited (α × Cursor)}
    {bare : Cursor → Except LoadError (α × Cursor)} {put : β → α → Audited β} {add : β → α → β}
    (ready : Nat → β → Prop) {good : α → Prop}
    (hread : ∀ cursor, cursor.length ≤ limit → (read cursor).Safe limit (bare cursor))
    (hkept : ∀ cursor value next, bare cursor = .ok (value, next) →
      good value ∧ next.length = cursor.length)
    (hput : ∀ count target value, ready (count + 1) target → good value →
      (put target value).Safe limit (.ok (add target value)) ∧ ready count (add target value))
    {count : Nat} {target : β} {cursor : Cursor} (hready : ready count target)
    (hlength : cursor.length ≤ limit) :
    (readInto read put count target cursor).Safe limit (do
      let (values, next) ← Registry.readMany bare count cursor
      return (values.foldl add target, next)) := by
  induction count generalizing target cursor with
  | zero => exact safe_pure _
  | succ count ih =>
      -- What the target is ready for counts down with the reads, so it is ready for each put.
      rw [readInto, readMany_succ_foldl]
      apply (hread cursor hlength).bind
      intro result hbare
      obtain ⟨value, next⟩ := result
      obtain ⟨hgood, hsame⟩ := hkept cursor value next hbare
      obtain ⟨hsafePut, hrest⟩ := hput count target value hready hgood
      exact hsafePut.bind_ok (ih hrest (by omega))

theorem safe_readCount (cursor : Cursor) (least : Nat) (fault : Nat → Nat → LoadError) :
    (readCount cursor least fault).Safe limit (do
      let (count, cursor) ← Registry.reading cursor.readWord
      if cursor.hasRoom count.toNat least then return (count.toNat, cursor)
      else throw (fault count.toNat cursor.remaining)) := by
  apply (safe_readWord cursor).bind
  intro result _
  obtain ⟨count, next⟩ := result
  by_cases hroom : next.hasRoom count.toNat least = true
  · simp only [if_pos hroom]
    exact safe_pure _
  · simp only [if_neg hroom]
    exact safe_plain _

/-- A count that is read is small beside what is left of the payload. -/
theorem mul_le_of_countsWith {counted : Cursor → Except LoadError (Nat × Cursor)} {least : Nat}
    (h : Registry.CountsWith counted least) {cursor next : Cursor} {count : Nat}
    (hcount : counted cursor = .ok (count, next)) :
    count * least ≤ cursor.length ∧ next.length = cursor.length := by
  obtain ⟨-, hpass, hroom⟩ := (h cursor count next).mp hcount
  refine ⟨Nat.le_trans hroom ?_, hpass.length_eq⟩
  rw [← hpass.length_eq]
  exact Nat.sub_le _ _

/-! ## Entries -/

theorem safe_readField (typeCount : Nat) (typeName : String) (cursor : Cursor) :
    (readField typeCount typeName cursor).Safe limit
      (Registry.readField typeCount typeName cursor) := by
  apply (safe_readName cursor).bind
  intro name _
  apply (safe_readFlag name.2).bind
  intro flag _
  apply (safe_readHalf flag.2).bind
  intro depth _
  apply (safe_readWord depth.2).bind
  intro offset _
  apply (safe_readWord offset.2).bind
  intro array _
  apply (safe_readWord array.2).bind
  intro id _
  by_cases hout : typeCount < id.1.toNat
  · simp only [if_pos hout]
    exact safe_plain _
  · simp only [if_neg hout]
    exact safe_pure _

theorem safe_readEnumerator (cursor : Cursor) :
    (readEnumerator cursor).Safe limit (Registry.readEnumerator cursor) := by
  apply (safe_readName cursor).bind
  intro name _
  apply (safe_readWord name.2).bind
  intro value _
  exact safe_pure _

theorem safe_withMembers (id : TypeId) (name : Name) (size : UInt64) (kind : TypeKind)
    {capacity : Nat} (hcapacity : 2 * capacity ≤ limit) (hlimit : 1 ≤ limit)
    (hsize : limit < UInt64.size) :
    (withMembers id name size kind capacity).Safe limit
      (.ok (.withMembers id name size kind capacity)) := by
  apply Safe.after
  · intro demand hmem
    rcases List.mem_cons.mp hmem with rfl | hlater
    · show capacity ≤ limit
      omega
    · rw [List.mem_singleton.mp hlater]
      show 2 * capacity < UInt64.size
      omega
  · apply (safe_reserveNames hcapacity hlimit).bind_ok
    exact safe_pure _

theorem expects_withMembers (id : TypeId) (name : Name) (size : UInt64) {kind : TypeKind}
    {wrap : List α → Members} (hkind : Members.emptyFor kind = wrap []) (hbase : kind ≠ .base)
    (count : Nat) : Expects (.withMembers id name size kind count) wrap count := by
  constructor
  · refine ⟨[], hkind, ?_⟩
    simp [TypeRecord.withMembers, if_neg hbase]
  · intro index hindex
    simp only [TypeRecord.withMembers, if_neg hbase, Option.some.injEq] at hindex
    rw [← hindex]
    exact NameIndex.sound_withCapacity _

theorem length_eq_of_decodes {read : Cursor → Except LoadError (α × Cursor)} {write : β → Bytes}
    {valid : β → Prop} {means : Bytes → Bool → β → α → Prop}
    (h : Registry.Decodes read write valid means) {cursor next : Cursor} {value : α}
    (hread : read cursor = .ok (value, next)) : next.length = cursor.length := by
  obtain ⟨listed, -, -, hpass⟩ := (h cursor value next).mp hread
  exact hpass.length_eq

/-- Members are announced, and room is made for them, only as far as bytes are left. -/
theorem safe_readAnnounced {read : Cursor → Audited (α × Cursor)}
    {bare : Cursor → Except LoadError (α × Cursor)} {put : TypeRecord → α → Audited TypeRecord}
    {add : TypeRecord → α → TypeRecord} {wrap : List α → Members} {write : β → Bytes}
    {valid : β → Prop} {means : Bytes → Bool → β → α → Prop}
    (hdecodes : Registry.Decodes bare write valid means)
    (hread : ∀ cursor, (read cursor).Safe limit (bare cursor))
    (hput : ∀ {count record}, Expects record wrap (count + 1) → ∀ member,
      (put record member).Safe limit (.ok (add record member)) ∧
        Expects (add record member) wrap count)
    {id : TypeId} {name : Name} {size : UInt64} {kind : TypeKind} {least : Nat}
    (hempty : Members.emptyFor kind = wrap []) (hbase : kind ≠ .base) (hleast : 2 ≤ least)
    {cursor : Cursor} (hlength : cursor.length ≤ limit) (hlimit : 1 ≤ limit)
    (hsize : limit < UInt64.size) :
    (readAnnounced id name size kind least read put cursor).Safe limit (do
      let (count, cursor) ← Registry.readCount cursor name.text least
      let (values, cursor) ← Registry.readMany bare count cursor
      return (values.foldl add (.withMembers id name size kind count), cursor)) := by
  apply (safe_readCount cursor least (.memberCountTooLarge name.text)).bind
  intro result hcount
  obtain ⟨count, next⟩ := result
  have hcounts := Registry.countsWith_readCount name.text least
  obtain ⟨hroom, hsame⟩ := mul_le_of_countsWith hcounts hcount
  have hcapacity : 2 * count ≤ limit := by
    have htwice : count * 2 ≤ count * least := Nat.mul_le_mul_left count hleast
    omega
  apply (safe_withMembers id name size kind hcapacity hlimit hsize).bind_ok
  apply safe_readInto (fun count record => Expects record wrap count)
  · intro cursor _
    exact hread cursor
  · intro cursor value behind hvalue
    exact ⟨trivial, length_eq_of_decodes hdecodes hvalue⟩
  · intro count record value hready _
    exact hput hready value
  · exact expects_withMembers id name size hempty hbase count
  · omega

theorem safe_readMembers {typeCount : Nat} {id : TypeId} {name : Name} {size : UInt64}
    (kind : TypeKind) {cursor : Cursor} (hlength : cursor.length ≤ limit) (hlimit : 1 ≤ limit)
    (hsize : limit < UInt64.size) :
    (readMembers typeCount id name size kind cursor).Safe limit
      (Registry.readMembers typeCount id name size kind cursor) := by
  have hfields := Registry.decodes_field typeCount name.text
  cases kind with
  | base => exact safe_pure _
  | struct =>
      exact safe_readAnnounced hfields (safe_readField typeCount name.text) safe_pushField rfl
        TypeKind.noConfusion (by decide) hlength hlimit hsize
  | union =>
      exact safe_readAnnounced hfields (safe_readField typeCount name.text) safe_pushField rfl
        TypeKind.noConfusion (by decide) hlength hlimit hsize
  | enum =>
      exact safe_readAnnounced Registry.decodes_enumerator safe_readEnumerator
        safe_pushEnumerator rfl TypeKind.noConfusion (by decide) hlength hlimit hsize

theorem safe_readKind (cursor : Cursor) :
    (readKind cursor).Safe limit (Registry.readKind cursor) := by
  apply (safe_readByte cursor).bind
  intro byte _
  cases hkind : TypeKind.ofByte? byte.1 with
  | none =>
      simp only [hkind]
      exact safe_plain _
  | some kind =>
      simp only [hkind]
      exact safe_pure _

theorem safe_readType (typeCount : Nat) {cursor : Cursor} (hlength : cursor.length ≤ limit)
    (hlimit : 1 ≤ limit) (hsize : limit < UInt64.size) :
    (readType typeCount cursor).Safe limit (Registry.readType typeCount cursor) := by
  apply (safe_readWord cursor).bind
  intro id hid
  by_cases hout : typeCount < id.1.toNat
  · simp only [if_pos hout]
    exact safe_plain _
  · simp only [if_neg hout]
    apply (safe_readKind id.2).bind
    intro kind hkind
    apply (safe_readName kind.2).bind
    intro name hname
    apply (safe_readWord name.2).bind
    intro size hread
    have passId := Cursor.readWord_eq_ok_iff.mp (Registry.reading_eq_ok_iff.mp hid)
    have passKind := Registry.readKind_eq_ok_iff.mp hkind
    obtain ⟨place, passName, -⟩ :=
      Cursor.readName_eq_ok_iff.mp (Registry.reading_eq_ok_iff.mp hname)
    have passSize := Cursor.readWord_eq_ok_iff.mp (Registry.reading_eq_ok_iff.mp hread)
    apply safe_readMembers kind.1 _ hlimit hsize
    rw [passSize.length_eq, passName.length_eq, passKind.length_eq, passId.length_eq]
    exact hlength

/-! ## Loading -/

theorem safe_put {registry : Registry} (h : registry.names.Sound) {record : TypeRecord}
    (hid : record.id.index < registry.idCapacity) :
    (put registry record).Safe limit (.ok (registry.put record)) := by
  apply (safe_insert h record.name record.id.index).bind_ok
  apply Safe.after
  · intro demand hmem
    rcases List.mem_cons.mp hmem with rfl | hlater
    · exact hid
    · rw [List.mem_singleton.mp hlater]
      exact hid
  · exact safe_pure _

theorem safe_readEntries (count : Nat) {cursor : Cursor} (hlength : cursor.length ≤ limit)
    (hlimit : 1 ≤ limit) (hsize : limit < UInt64.size) (tag : UInt64) :
    (readInto (readType count) put count (.withCount count tag) cursor).Safe limit (do
      let (records, next) ← Registry.readMany (Registry.readType count) count cursor
      return (records.foldl Registry.put (.withCount count tag), next)) := by
  apply safe_readInto
    (fun _ (registry : Registry) => registry.names.Sound ∧ registry.idCapacity = count + 1)
  · intro cursor hlength
    exact safe_readType count hlength hlimit hsize
  · intro cursor record next hread
    exact ⟨Registry.id_le_of_readType hread,
      length_eq_of_decodes (Registry.decodes_type count) hread⟩
  · intro remaining registry record hready hid
    obtain ⟨hsound, hslots⟩ := hready
    refine ⟨safe_put hsound (by omega), hsound.insert record.name record.id.index, ?_⟩
    rw [Registry.idCapacity_put, hslots]
  · exact ⟨NameIndex.sound_withCapacity _, by simp [Registry.idCapacity, Registry.withCount]⟩
  · exact hlength

/-- Putting each record as it is read builds what all of them make when read. -/
theorem ofRecords_readTable (cursor : Cursor) (tag : UInt64) :
    (do
      let ((count, records), _) ← Registry.readTable cursor
      return Registry.ofRecords count records tag) = (do
      let (count, cursor) ← Registry.readTypeCount cursor
      let (registry, _) ← (do
        let (records, next) ← Registry.readMany (Registry.readType count) count cursor
        return (records.foldl Registry.put (.withCount count tag), next))
      return registry) := by
  simp only [Registry.readTable, Registry.ofRecords, bind_assoc, pure_bind]

theorem safe_readRegistry {cursor : Cursor} (hlength : cursor.length ≤ limit) (hlimit : 1 ≤ limit)
    (hsize : limit < UInt64.size) (tag : UInt64) :
    (readRegistry cursor tag).Safe limit (do
      let ((count, records), _) ← Registry.readTable cursor
      return .ofRecords count records tag) := by
  rw [ofRecords_readTable]
  apply (safe_readCount cursor entryLeast .typeCountTooLarge).bind
  intro result hcount
  obtain ⟨count, next⟩ := result
  obtain ⟨hroom, hsame⟩ := mul_le_of_countsWith Registry.countsWith_readTypeCount hcount
  have hcapacity : 2 * count ≤ limit := by
    have hentry : entryLeast = 25 := rfl
    rw [hentry] at hroom
    omega
  apply Safe.after
  · intro demand hmem
    simp only [List.mem_cons, List.not_mem_nil, or_false] at hmem
    rcases hmem with rfl | rfl | rfl
    · show count + 1 < UInt64.size
      omega
    · show count + 1 ≤ limit
      omega
    · show 2 * count < UInt64.size
      omega
  · apply (safe_reserveNames hcapacity hlimit).bind_ok
    have hbehind : next.length ≤ limit := by omega
    have hentries := safe_readEntries count hbehind hlimit hsize tag
    exact hentries.bind fun _ _ => safe_pure _

theorem safe_load (bytes : Bytes) (options : LoadOptions) (tag : UInt64)
    (hpayload : ∀ payload, options.framing.payload bytes = .ok payload → payload.length ≤ limit)
    (hlimit : 1 ≤ limit) (hsize : limit < UInt64.size) :
    (load bytes options tag).Safe limit (Registry.load bytes options tag) := by
  apply (safe_payload options.framing bytes).bind
  intro payload hread
  have hlength := hpayload payload (Registry.reading_eq_ok_iff.mp hread)
  by_cases hempty : payload.isEmpty = true
  · simp only [if_pos hempty]
    apply Safe.after_one
    · exact hlimit
    · apply (safe_reserveNames (Nat.zero_le limit) hlimit).bind_ok
      exact safe_pure _
  · simp only [if_neg hempty]
    apply safe_readRegistry _ hlimit hsize
    rw [← Cursor.length_content, Cursor.content_start]
    exact hlength

end TypeAtlas.Audited
