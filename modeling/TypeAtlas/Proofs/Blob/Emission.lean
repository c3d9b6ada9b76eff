import Mathlib.Data.List.Basic
import TypeAtlas.Blob.Encode
import TypeAtlas.Proofs.Blob.Pool
import TypeAtlas.Proofs.Blob.Words
import TypeAtlas.Proofs.Outcome

/-!
# Emission

What a sequence of items is written as. The offsets of names are found while the items are
written, so the bytes are stated over the pool that is there at the end: a name keeps its
place in it from its first use on.
-/

namespace TypeAtlas

namespace Item

def name? : Item → Option String
  | name text => some text
  | _ => none

/-- The first of some items uses its name before the rest use theirs. -/
theorem append_names_cons (used : List String) (item : Item) (rest : List Item) :
    used ++ (item :: rest).filterMap name? =
      used ++ item.name?.toList ++ rest.filterMap name? := by
  cases hname : item.name? <;> simp [hname]

/-- The bytes of an item, once every name has its number. -/
def toBytes (target : Target) (number : String → Nat) : Item → Bytes
  | byte value => [value]
  | flag value => [if value then 1 else 0]
  | half value => target.half value
  | word value => target.ofNat value.toNat
  | signed value => target.ofNat (target.signedNumber value)
  | name text => target.ofNat (number text)

def Fits (target : Target) (number : String → Nat) : Item → Prop
  | word value => target.Fits value.toNat
  | name text => target.Fits (number text)
  | _ => True

/-- Only the numbers of names that are written count. -/
theorem flatMap_toBytes_congr {target : Target} {number other : String → Nat} {items : List Item}
    (h : ∀ text ∈ items.filterMap name?, target.ofNat (number text) = target.ofNat (other text)) :
    items.flatMap (toBytes target number) = items.flatMap (toBytes target other) := by
  apply List.flatMap_congr
  intro item hmem
  cases item with
  | name text => exact h text (List.mem_filterMap.mpr ⟨_, hmem, rfl⟩)
  | _ => rfl

end Item

namespace Target

/-- The word for a name in a table of the given length, when some names are in use. -/
def nameNumber (tableLength : UInt64) (used : List String) (text : String) : Nat :=
  (tableLength + UInt64.ofNat (Schema.placeIn used.eraseDups text)).toNat

theorem nameNumber_concat_append (tableLength : UInt64) (used more : List String)
    (text : String) :
    nameNumber tableLength (used ++ [text] ++ more) text =
      nameNumber tableLength (used ++ [text]) text := by
  have hmem : text ∈ used ++ [text] := List.mem_append_right used List.mem_cons_self
  rw [nameNumber, Schema.placeIn_eraseDups_append hmem, nameNumber]

theorem emitItem_eq_ok {target : Target} {tableLength : UInt64} {pool next : StringPool}
    {used : List String} {item : Item} {bytes : Bytes} (h : pool.Holds used)
    (hemit : target.emitItem tableLength pool item = .ok (bytes, next)) :
    next.Holds (used ++ item.name?.toList) ∧
      bytes = item.toBytes target (nameNumber tableLength (used ++ item.name?.toList)) ∧
      item.Fits target (nameNumber tableLength (used ++ item.name?.toList)) := by
  cases item with
  | byte value =>
      cases hemit
      exact ⟨by simpa [Item.name?] using h, rfl, trivial⟩
  | flag value =>
      cases hemit
      exact ⟨by simpa [Item.name?] using h, rfl, trivial⟩
  | half value =>
      cases hemit
      exact ⟨by simpa [Item.name?] using h, rfl, trivial⟩
  | word value =>
      obtain ⟨word, hword, hpair⟩ := Outcome.map_eq_ok.mp hemit
      cases hpair
      obtain ⟨hfits, rfl⟩ := word_eq_ok_iff.mp hword
      exact ⟨by simpa [Item.name?] using h, rfl, hfits⟩
  | signed value =>
      obtain ⟨word, hword, hpair⟩ := Outcome.map_eq_ok.mp hemit
      cases hpair
      exact ⟨by simpa [Item.name?] using h, signedWord_eq_ok hword, trivial⟩
  | name text =>
      obtain ⟨⟨offset, grown⟩, hintern, hrest⟩ := Outcome.bind_eq_ok.mp hemit
      obtain ⟨word, hword, hpair⟩ := Outcome.bind_eq_ok.mp hrest
      cases Outcome.pure_eq_ok.mp hpair
      obtain ⟨hholds, hoffset⟩ := h.intern hintern
      obtain ⟨hfits, rfl⟩ := word_eq_ok_iff.mp hword
      rw [hoffset] at hfits ⊢
      exact ⟨hholds, rfl, hfits⟩

/-- Items that are written leave the pool of their names, and each shows its own number. -/
theorem emit_eq_ok {target : Target} {tableLength : UInt64} {pool next : StringPool}
    {used : List String} {items : List Item} {bytes : Bytes} (h : pool.Holds used)
    (hemit : target.emit tableLength pool items = .ok (bytes, next)) :
    next.Holds (used ++ items.filterMap Item.name?) ∧
      bytes = items.flatMap
        (Item.toBytes target (nameNumber tableLength (used ++ items.filterMap Item.name?))) ∧
      ∀ item ∈ items,
        item.Fits target (nameNumber tableLength (used ++ items.filterMap Item.name?)) := by
  induction items generalizing pool used bytes with
  | nil =>
      cases hemit
      exact ⟨by simpa using h, rfl, by simp⟩
  | cons item rest ih =>
      obtain ⟨⟨front, middle⟩, hitem, hrest⟩ := Outcome.bind_eq_ok.mp hemit
      obtain ⟨⟨more, last⟩, htail, hpair⟩ := Outcome.bind_eq_ok.mp hrest
      cases Outcome.pure_eq_ok.mp hpair
      obtain ⟨hmiddle, hfront, hfits⟩ := emitItem_eq_ok h hitem
      obtain ⟨hlast, hmore, hfitsMore⟩ := ih hmiddle htail
      -- The pool grows while the rest is written, but the first name is in it by then, so its
      -- number is the one that the pool at the end gives it.
      rw [Item.append_names_cons]
      refine ⟨hlast, ?_, ?_⟩
      · rw [List.flatMap_cons, ← hmore, hfront]
        congr 1
        cases item with
        | name text => exact congrArg target.ofNat (nameNumber_concat_append ..).symm
        | _ => rfl
      · intro other hmem
        rcases List.mem_cons.mp hmem with rfl | hlater
        · cases other with
          | name text =>
              simpa only [Item.Fits, Item.name?, Option.toList_some, nameNumber_concat_append]
                using hfits
          | _ => exact hfits
        · exact hfitsMore other hlater

end Target

end TypeAtlas
