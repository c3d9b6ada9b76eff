import TypeAtlas.Blob.Interning
import TypeAtlas.Proofs.Blob.Encoding
import TypeAtlas.Proofs.Blob.Exchange

/-!
# Interning and reading back

Calls in any order give every text its place among the distinct texts that were taken. The place
depends only on what is in front of it, so later calls leave it, and the text is read there behind
whatever bytes the pool is put.
-/

namespace TypeAtlas.StringPool

/-! ## One call -/

theorem run_get_bind (pool : StringPool)
    (next : StringPool → ExceptT BlobError (StateM StringPool) α) :
    (get >>= next).run.run pool = (next pool).run.run pool := rfl

/-- Nothing has been done to a pool when it refuses a text. -/
theorem perform_eq (pool : StringPool) (text : String) :
    pool.perform text =
      match pool.intern text with
      | .ok (offset, next) => (.ok offset, next)
      | .error fault => (.error fault, pool) := by
  rw [perform, internInPlace, run_get_bind, intern]
  cases pool.offsets.lookup text with
  | some offset => rfl
  | none =>
      by_cases hnul : '\x00' ∈ text.toList
      · simp only [if_pos hnul]
        rfl
      · simp only [if_neg hnul]
        rfl

variable {pool : StringPool} {names : List String} {text : String}

theorem Holds.perform_of_nul (h : pool.Holds names) (hnul : '\x00' ∈ text.toList) :
    pool.perform text = (.error (.interiorNul text), pool) := by
  have hnew : text ∉ names := fun hmem => h.plain text hmem hnul
  have hlookup : pool.offsets.lookup text = none := by rw [h.lookup, if_neg hnew]
  rw [perform_eq, StringPool.intern, hlookup]
  simp only [if_pos hnul]

theorem Holds.perform_of_plain (h : pool.Holds names) (hplain : '\x00' ∉ text.toList) :
    ∃ next, pool.perform text = (.ok (Schema.placeIn (names ++ [text]).eraseDups text), next) ∧
      next.Holds (names ++ [text]) := by
  have htaken : ∃ offset next, pool.intern text = .ok (offset, next) := by
    unfold StringPool.intern
    cases pool.offsets.lookup text with
    | some offset => exact ⟨offset, pool, rfl⟩
    | none => exact ⟨_, _, if_neg hplain⟩
  obtain ⟨offset, next, hintern⟩ := htaken
  obtain ⟨hnext, rfl⟩ := h.intern hintern
  exact ⟨next, by rw [perform_eq, hintern], hnext⟩

/-! ## Runs of calls -/

def taken (texts : List String) : List String :=
  texts.filter fun text => '\x00' ∉ text.toList

/-- What a pool answers to a text when some names are taken in all. -/
def answer (names : List String) (text : String) : Except BlobError Nat :=
  if '\x00' ∈ text.toList then .error (.interiorNul text)
  else .ok (Schema.placeIn names.eraseDups text)

theorem Holds.run (h : pool.Holds names) (texts : List String) :
    (pool.run texts).1 = texts.map (answer (names ++ taken texts)) ∧
      (pool.run texts).2.Holds (names ++ taken texts) := by
  unfold StringPool.run
  induction texts generalizing pool names with
  | nil => exact ⟨rfl, by simpa [taken] using h⟩
  | cons text later ih =>
      rw [performAll_cons, List.map_cons]
      by_cases hnul : '\x00' ∈ text.toList
      · have htaken : taken (text :: later) = taken later := by simp [taken, hnul]
        obtain ⟨hanswers, hlast⟩ := ih h
        rw [h.perform_of_nul hnul, htaken]
        refine ⟨?_, hlast⟩
        rw [hanswers, answer, if_pos hnul]
      · have htaken : names ++ taken (text :: later) = names ++ [text] ++ taken later := by
          simp [taken, hnul]
        -- The later texts come behind this one, so its place is already the final one.
        have hplace : Schema.placeIn (names ++ [text] ++ taken later).eraseDups text =
            Schema.placeIn (names ++ [text]).eraseDups text :=
          Schema.placeIn_eraseDups_append (by simp) _
        obtain ⟨next, hperform, hnext⟩ := h.perform_of_plain hnul
        obtain ⟨hanswers, hlast⟩ := ih hnext
        rw [hperform, htaken]
        refine ⟨?_, hlast⟩
        rw [hanswers, answer, if_neg hnul, hplace]

/-! ## Reading back -/

theorem Holds.gives (h : pool.Holds names) (hmem : text ∈ names) :
    pool.Gives (Schema.placeIn names.eraseDups text) text := by
  intro front cursor hcontent
  have hplace := Schema.textAt_placeIn (List.mem_eraseDups.mpr hmem) (h.plain text hmem)
  rw [Cursor.nameAt_eq_ok_iff, hcontent, h.bytes]
  exact ⟨hplace.append_left front, rfl⟩

/-- At one offset there is one text. -/
theorem Gives.unique {offset : Nat} {other : String} (h : pool.Gives offset text)
    (hother : pool.Gives offset other) : text = other := by
  have hread := h [] (.start pool.bytes false) rfl
  rw [hother [] (.start pool.bytes false) rfl] at hread
  exact (congrArg Name.text (Except.ok.inj hread)).symm

theorem run_empty (texts : List String) :
    (empty.run texts).1 = texts.map (answer (taken texts)) ∧
      (empty.run texts).2.Holds (taken texts) := by
  simpa using holds_empty.run texts

theorem mem_taken {texts : List String} :
    text ∈ taken texts ↔ text ∈ texts ∧ '\x00' ∉ text.toList := by
  simp [taken]

/-- Every text that is taken is read where the answer says, whenever it was asked for. -/
theorem gives_of_answer {texts : List String} {place offset : Nat} (htext : texts[place]? = some text)
    (hanswer : (empty.run texts).1[place]? = some (.ok offset)) :
    (empty.run texts).2.Gives offset text ∧
      offset = Schema.placeIn (taken texts).eraseDups text := by
  obtain ⟨hanswers, hholds⟩ := run_empty texts
  rw [hanswers, List.getElem?_map, htext, Option.map_some, Option.some_inj, answer] at hanswer
  by_cases hnul : '\x00' ∈ text.toList
  · rw [if_pos hnul] at hanswer
    cases hanswer
  · rw [if_neg hnul] at hanswer
    cases hanswer
    exact ⟨hholds.gives (mem_taken.mpr ⟨List.mem_of_getElem? htext, hnul⟩), rfl⟩

/-- A text with a NUL is refused and leaves the pool as it was. Any other is given an offset, at
which it is read whatever texts come later, and two of them have one offset only if they are
equal. -/
theorem run_gives :
    (∀ (before : List String) (text : String) (after : List String),
      let last := empty.run (before ++ text :: after)
      ('\x00' ∈ text.toList →
        last.1[before.length]? = some (.error (.interiorNul text)) ∧
          (empty.run (before ++ [text])).2 = (empty.run before).2) ∧
      ('\x00' ∉ text.toList →
        ∃ offset, last.1[before.length]? = some (.ok offset) ∧ last.2.Gives offset text)) ∧
    ∀ (texts : List String) (first second : Nat) (text other : String) (offset place : Nat),
      texts[first]? = some text → texts[second]? = some other →
      (empty.run texts).1[first]? = some (.ok offset) →
      (empty.run texts).1[second]? = some (.ok place) →
      (offset = place ↔ text = other) := by
  constructor
  · intro before text after last
    have htext : (before ++ text :: after)[before.length]? = some text := by simp
    have hanswer : last.1[before.length]? =
        some (answer (taken (before ++ text :: after)) text) := by
      rw [(run_empty _).1, List.getElem?_map, htext, Option.map_some]
    constructor
    · intro hnul
      have hlast : (empty.run (before ++ [text])).2 = ((empty.run before).2.perform text).2 := by
        rw [StringPool.run, performAll_append]
        rfl
      refine ⟨by rw [hanswer, answer, if_pos hnul], ?_⟩
      rw [hlast, (run_empty before).2.perform_of_nul hnul]
    · intro hplain
      rw [answer, if_neg hplain] at hanswer
      exact ⟨_, hanswer, (gives_of_answer htext hanswer).1⟩
  · intro texts first second text other offset place hfirst hsecond hoffset hplace
    obtain ⟨hgives, hform⟩ := gives_of_answer hfirst hoffset
    obtain ⟨hother, hsame⟩ := gives_of_answer hsecond hplace
    constructor
    · rintro rfl
      exact hgives.unique hother
    · rintro rfl
      rw [hform, hsame]

/-- A text that ends another has an offset of its own, and a copy of it is read there behind two
bytes; one with a NUL leaves the pool to those behind it. -/
theorem run_gives_ending :
    let texts := ["ab", "b", "a\x00b", "b"]
    (empty.run texts).1 = [.ok 0, .ok 3, .error (.interiorNul "a\x00b"), .ok 3] ∧
      (Cursor.start ([0, 255] ++ (empty.run texts).2.bytes) true).nameAt 5 = .ok ⟨"b", true⟩ ∧
      (empty.run ["ab", "b", "a\x00b"]).2 = (empty.run ["ab", "b"]).2 ∧
      (0 = 3 ↔ "ab" = "b") := by
  intro texts
  have hanswers : (empty.run texts).1 =
      [.ok 0, .ok 3, .error (.interiorNul "a\x00b"), .ok 3] := by decide +kernel
  obtain ⟨offset, hoffset, hgives⟩ := (run_gives.1 ["ab"] "b" ["a\x00b", "b"]).2 (by decide)
  have hthree : some (.ok 3) = some (Except.ok offset : Except BlobError Nat) :=
    (congrArg (·[1]?) hanswers).symm.trans hoffset
  cases hthree
  have hrefused := ((run_gives.1 ["ab", "b"] "a\x00b" ["b"]).1 (by decide)).2
  refine ⟨hanswers, hgives [0, 255] _ rfl, hrefused, ?_⟩
  apply run_gives.2 texts 0 1 "ab" "b" 0 3 rfl rfl
  · rw [hanswers]
    rfl
  · rw [hanswers]
    rfl

end TypeAtlas.StringPool
