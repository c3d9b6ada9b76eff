/-!
# Decimal numbers

Reading follows one grammar everywhere: an optional sign, then at least one digit, and
the value must fit. Writing gives the shortest digit string, which reads back.
-/

namespace TypeAtlas.Text

def digit? (c : Char) : Option Nat :=
  if '0' ≤ c ∧ c ≤ '9' then some (c.toNat - '0'.toNat) else none

def natural? : List Char → Option Nat
  | [] => none
  | digits => digits.foldlM (fun n c => (digit? c).map (10 * n + ·)) 0

/-- A number below `limit`; a plus sign may stand in front. -/
def unsigned? (limit : Nat) (text : List Char) : Option Nat :=
  (natural? (if text.head? = some '+' then text.tail else text)).filter (· < limit)

/-- A number in `[-limit, limit)`; a plus or minus sign may stand in front. -/
def signed? (limit : Nat) (text : List Char) : Option Int :=
  if text.head? = some '-' then
    ((natural? text.tail).filter (· ≤ limit)).map fun (n : Nat) => -(n : Int)
  else (unsigned? limit text).map fun (n : Nat) => (n : Int)

def digitOf (n : Nat) : Char := Char.ofNat ('0'.toNat + n % 10)

def writeNat (n : Nat) : List Char :=
  if n < 10 then [digitOf n] else writeNat (n / 10) ++ [digitOf n]

def writeInt (n : Int) : List Char :=
  if n < 0 then '-' :: writeNat n.natAbs else writeNat n.natAbs

theorem digit?_digitOf (n : Nat) : digit? (digitOf n) = some (n % 10) := by
  have h : ∀ d, d < 10 → digit? (Char.ofNat ('0'.toNat + d)) = some d := by decide
  exact h (n % 10) (Nat.mod_lt n (by omega))

theorem writeNat_ne_nil (n : Nat) : writeNat n ≠ [] := by
  unfold writeNat
  split <;> simp

theorem foldlM_writeNat (n : Nat) :
    (writeNat n).foldlM (fun m c => (digit? c).map (10 * m + ·)) 0 = some n := by
  induction n using writeNat.induct with
  | case1 n h =>
    rw [writeNat, if_pos h]
    simp [digit?_digitOf, Nat.mod_eq_of_lt h]
  | case2 n h ih =>
    rw [writeNat, if_neg h, List.foldlM_append, ih]
    simp only [Option.bind_eq_bind, Option.bind_some, List.foldlM_cons, digit?_digitOf,
      Option.map_some, List.foldlM_nil, Option.pure_def]
    congr 1
    omega

theorem natural?_writeNat (n : Nat) : natural? (writeNat n) = some n := by
  have h := foldlM_writeNat n
  unfold natural?
  split
  · next hnil => exact absurd hnil (writeNat_ne_nil n)
  · exact h

/-! ## Numbers that fit -/

theorem exists_digitOf_of_mem_writeNat {n : Nat} {c : Char} (h : c ∈ writeNat n) :
    ∃ d, c = digitOf d := by
  induction n using writeNat.induct with
  | case1 n hlt =>
    rw [writeNat, if_pos hlt, List.mem_singleton] at h
    exact ⟨n, h⟩
  | case2 n hge ih =>
    rw [writeNat, if_neg hge, List.mem_append, List.mem_singleton] at h
    rcases h with h | h
    · exact ih h
    · exact ⟨n, h⟩

/-- A digit is neither of the signs. -/
theorem digitOf_ne_sign (d : Nat) : digitOf d ≠ '+' ∧ digitOf d ≠ '-' := by
  have h : ∀ e, e < 10 → Char.ofNat ('0'.toNat + e) ≠ '+' ∧ Char.ofNat ('0'.toNat + e) ≠ '-' := by
    decide
  exact h (d % 10) (Nat.mod_lt d (by omega))

theorem head?_writeNat_ne (n : Nat) :
    (writeNat n).head? ≠ some '+' ∧ (writeNat n).head? ≠ some '-' := by
  constructor <;>
  · intro h
    obtain ⟨d, hd⟩ := exists_digitOf_of_mem_writeNat (List.mem_of_mem_head? h)
    have hsign := digitOf_ne_sign d
    rw [← hd] at hsign
    simp at hsign

theorem unsigned?_writeNat {limit n : Nat} (h : n < limit) :
    unsigned? limit (writeNat n) = some n := by
  rw [unsigned?, if_neg (head?_writeNat_ne n).1, natural?_writeNat]
  simp [h]

theorem signed?_writeInt {limit : Nat} {n : Int} (hlow : -limit ≤ n) (hhigh : n < limit) :
    signed? limit (writeInt n) = some n := by
  by_cases hsign : n < 0
  · have hle : n.natAbs ≤ limit := by omega
    have habs : -(n.natAbs : Int) = n := by omega
    simp only [signed?, writeInt, if_pos hsign, List.head?_cons, List.tail_cons, if_true,
      natural?_writeNat, Option.filter_some, hle, decide_true, Option.map_some, habs]
  · have hlt : n.natAbs < limit := by omega
    have habs : (n.natAbs : Int) = n := by omega
    simp [signed?, writeInt, hsign, (head?_writeNat_ne n.natAbs).2, unsigned?_writeNat hlt, habs]

end TypeAtlas.Text
