import Mathlib.Data.List.Lex
import TypeAtlas.Files.Discovery
import TypeAtlas.Proofs.Files.Walking
import TypeAtlas.Proofs.Outcome

/-!
# What discovery finds

In a tree whose directories hold each name once, the dumps that are found below a directory
are exactly the files there whose names are text and end as those of dumps do, each of them
once. Their order is that of times and, within one time, of paths, so it does not depend on the
order in which directories are enumerated. A search fails exactly when there is a directory
whose path is too long to be read.
-/

namespace TypeAtlas

/-! ## Well-formed trees -/

namespace FileTree

/-- Every directory holds each name once, and names that can be walked to. -/
def WellFormed (tree : FileTree) : Prop :=
  ∀ place entries, tree.find place = .ok (.directory entries) →
    (entries.map Prod.fst).Nodup ∧ ∀ name ∈ entries.map Prod.fst, FilePath.IsName name

variable {tree sub : FileTree} {entries : List (Bytes × FileTree)} {name : Bytes}

theorem mem_of_child? (h : child? name entries = some sub) : (name, sub) ∈ entries := by
  induction entries with
  | nil => cases h
  | cons first rest ih =>
    rw [child?] at h
    split at h
    · next heq =>
      cases h
      exact heq ▸ List.mem_cons_self
    · exact List.mem_cons_of_mem first (ih h)

theorem wellFormed_file (modified : Nat) (bytes : Bytes) : (file modified bytes).WellFormed := by
  intro place entries h
  cases place <;> cases h

theorem wellFormed_directory (hdistinct : (entries.map Prod.fst).Nodup)
    (hnames : ∀ name ∈ entries.map Prod.fst, FilePath.IsName name)
    (hentries : ∀ entry ∈ entries, entry.2.WellFormed) : (directory entries).WellFormed := by
  intro place others h
  cases place with
  | nil =>
    cases h
    exact ⟨hdistinct, hnames⟩
  | cons first rest =>
    simp only [find] at h
    split at h
    · cases h
    · next below hchild => exact hentries (first, below) (mem_of_child? hchild) rest others h

theorem WellFormed.below (h : tree.WellFormed) {place : List Bytes}
    (hfind : tree.find place = .ok sub) : sub.WellFormed := by
  intro deeper entries hentries
  exact h (place ++ deeper) entries ((find_append_of_ok hfind deeper).trans hentries)

theorem WellFormed.nodup (h : (directory entries).WellFormed) :
    (entries.map Prod.fst).Nodup := (h [] entries rfl).1

theorem child?_of_mem (hnodup : (entries.map Prod.fst).Nodup) (hmem : (name, sub) ∈ entries) :
    child? name entries = some sub := by
  induction entries with
  | nil => cases hmem
  | cons first rest ih =>
    obtain ⟨hfirst, hrest⟩ := List.nodup_cons.mp hnodup
    rw [child?]
    rcases List.mem_cons.mp hmem with rfl | hlater
    · exact if_pos rfl
    · have hne : first.1 ≠ name := by
        intro heq
        exact hfirst (heq ▸ List.mem_map.mpr ⟨_, hlater, rfl⟩)
      rw [if_neg hne, ih hrest hlater]

theorem WellFormed.entry (h : (directory entries).WellFormed) (hmem : (name, sub) ∈ entries) :
    sub.WellFormed := by
  have hchild := child?_of_mem h.nodup hmem
  have hfind : (directory entries).find [name] = .ok sub := by
    rw [find, hchild]
    rfl
  exact h.below hfind

theorem WellFormed.isName (h : tree.WellFormed) {place : List Bytes}
    (hfind : tree.find place = .ok sub) : ∀ name ∈ place, FilePath.IsName name := by
  induction place generalizing tree with
  | nil => simp
  | cons first rest ih =>
    cases tree with
    | file modified bytes => cases hfind
    | directory entries =>
      simp only [find] at hfind
      split at hfind
      · cases hfind
      · next below hchild =>
        have hentry := mem_of_child? hchild
        have hfirst := (h [] entries rfl).2 first (List.mem_map.mpr ⟨_, hentry, rfl⟩)
        exact List.forall_mem_cons.mpr ⟨hfirst, ih (h.entry hentry) hfind⟩

end FileTree

namespace Discovery

variable {tree entry : FileTree} {entries rest : List (Bytes × FileTree)} {path : FilePath}
  {name : Bytes} {found : FoundDump} {here dumps : List FoundDump} {error : FileError}

/-! ## What is found -/

theorem isDumpName_iff :
    isDumpName name = true ↔ ∃ stem, name = Bytes.ofString (stem ++ suffix) := by
  unfold isDumpName
  split
  · next hnone =>
    constructor
    · intro h
      cases h
    · intro hgiven
      rcases hgiven with ⟨stem, rfl⟩
      rw [Bytes.toString?_ofString] at hnone
      cases hnone
  · next text htext =>
    rw [List.isSuffixOf_iff_suffix, ← Bytes.ofString_toString? htext]
    constructor
    · intro hgiven
      rcases hgiven with ⟨stem, hstem⟩
      refine ⟨String.ofList stem, ?_⟩
      have heq : text = String.ofList stem ++ suffix := by
        rw [← String.toList_inj, ← hstem, String.toList_append, String.toList_ofList]
      rw [← heq]
    · intro hgiven
      rcases hgiven with ⟨stem, hstem⟩
      rw [Bytes.ofString_injective hstem, String.toList_append]
      exact List.suffix_append _ _

/-- A file whose name is text that ends as the names of dumps do, at its path below a
directory. -/
structure IsDump (tree : FileTree) (found : FoundDump) : Prop where
  file : ∃ bytes, tree.find found.path = .ok (.file found.modified bytes)
  named : ∃ stem, found.path.getLast? = some (Bytes.ofString (stem ++ suffix))

theorem dumpsAt_directory_eq_ok_iff :
    dumpsAt tree path name (.directory entries) = .ok here ↔
      (∃ read, tree.readDirectory path = .ok read) ∧
      ∃ deeper, dumpsIn tree path entries = .ok deeper ∧
        deeper.map (FoundDump.under name) = here := by
  rw [dumpsAt]
  cases tree.readDirectory path with
  | error error => simp
  | ok read => simp [Outcome.map_eq_ok]

theorem dumpsIn_cons_eq_ok_iff :
    dumpsIn tree path ((name, entry) :: rest) = .ok dumps ↔
      ∃ here behind, dumpsAt tree (path.join name) name entry = .ok here ∧
        dumpsIn tree path rest = .ok behind ∧ here ++ behind = dumps := by
  rw [dumpsIn, Outcome.bind_eq_ok]
  simp only [Outcome.bind_eq_ok, Outcome.pure_eq_ok]
  constructor
  · intro hgiven
    rcases hgiven with ⟨here, hhere, behind, hbehind, hdumps⟩
    exact ⟨here, behind, hhere, hbehind, hdumps⟩
  · intro hgiven
    rcases hgiven with ⟨here, behind, hhere, hbehind, hdumps⟩
    exact ⟨here, hhere, behind, hbehind, hdumps⟩

theorem mem_dumpsAt_file {modified : Nat} {bytes : Bytes}
    (h : dumpsAt tree path name (.file modified bytes) = .ok here) :
    found ∈ here ↔ found = ⟨[name], modified⟩ ∧ isDumpName name = true := by
  rw [dumpsAt] at h
  cases h
  split
  · next hdump => simp [hdump]
  · next hother => simp [hother]

theorem exists_below (h : dumpsAt tree path name entry = .ok here) (hfound : found ∈ here) :
    ∃ below, found.path = name :: below := by
  cases entry with
  | file modified bytes => exact ⟨[], congrArg FoundDump.path ((mem_dumpsAt_file h).mp hfound).1⟩
  | directory entries =>
    obtain ⟨-, deeper, -, rfl⟩ := dumpsAt_directory_eq_ok_iff.mp h
    obtain ⟨below, -, rfl⟩ := List.mem_map.mp hfound
    exact ⟨below.path, rfl⟩

theorem mem_dumpsIn (h : dumpsIn tree path entries = .ok dumps) :
    found ∈ dumps ↔ ∃ name entry here, (name, entry) ∈ entries ∧
      dumpsAt tree (path.join name) name entry = .ok here ∧ found ∈ here := by
  induction entries generalizing dumps with
  | nil =>
    cases h
    simp
  | cons first rest ih =>
    obtain ⟨first, sub⟩ := first
    obtain ⟨here, behind, hhere, hbehind, rfl⟩ := dumpsIn_cons_eq_ok_iff.mp h
    rw [List.mem_append, ih hbehind]
    constructor
    · intro hgiven
      rcases hgiven with hfirst | ⟨name, entry, deeper, hmem, hdeeper, hfound⟩
      · exact ⟨first, sub, here, List.mem_cons_self, hhere, hfirst⟩
      · exact ⟨name, entry, deeper, List.mem_cons_of_mem _ hmem, hdeeper, hfound⟩
    · intro hgiven
      rcases hgiven with ⟨name, entry, deeper, hmem, hdeeper, hfound⟩
      rcases List.mem_cons.mp hmem with heq | hrest
      · cases heq
        cases hhere.symm.trans hdeeper
        exact .inl hfound
      · exact .inr ⟨name, entry, deeper, hrest, hdeeper, hfound⟩

theorem exists_dumpsAt (h : dumpsIn tree path entries = .ok dumps)
    (hmem : (name, entry) ∈ entries) :
    ∃ here, dumpsAt tree (path.join name) name entry = .ok here := by
  induction entries generalizing dumps with
  | nil => cases hmem
  | cons first rest ih =>
    obtain ⟨here, behind, hhere, hbehind, -⟩ := dumpsIn_cons_eq_ok_iff.mp h
    rcases List.mem_cons.mp hmem with rfl | hrest
    · exact ⟨here, hhere⟩
    · exact ih hbehind hrest

theorem isDump_child_file {modified time : Nat} {bytes : Bytes} {below : List Bytes}
    (hchild : FileTree.child? name entries = some (.file modified bytes)) :
    IsDump (.directory entries) ⟨name :: below, time⟩ ↔
      (⟨name :: below, time⟩ : FoundDump) = ⟨[name], modified⟩ ∧ isDumpName name = true := by
  constructor
  · intro hgiven
    rcases hgiven with ⟨⟨contents, hfile⟩, stem, hlast⟩
    simp only [FileTree.find, hchild] at hfile
    cases below with
    | nil =>
      cases hfile
      exact ⟨rfl, isDumpName_iff.mpr ⟨stem, Option.some.inj hlast⟩⟩
    | cons next rest => cases hfile
  · intro hgiven
    rcases hgiven with ⟨heq, hname⟩
    cases heq
    obtain ⟨stem, rfl⟩ := isDumpName_iff.mp hname
    exact ⟨⟨bytes, by simp only [FileTree.find, hchild]⟩, stem, rfl⟩

theorem isDump_child_directory {inner : List (Bytes × FileTree)} {time : Nat}
    {below : List Bytes}
    (hchild : FileTree.child? name entries = some (.directory inner)) :
    IsDump (.directory entries) ⟨name :: below, time⟩ ↔
      IsDump (.directory inner) ⟨below, time⟩ := by
  have hfind : (FileTree.directory entries).find (name :: below) =
      (FileTree.directory inner).find below := by
    simp only [FileTree.find, hchild]
  cases below with
  | nil =>
    constructor
    · intro h
      obtain ⟨bytes, hfile⟩ := h.file
      rw [hfind] at hfile
      cases hfile
    · intro h
      obtain ⟨bytes, hfile⟩ := h.file
      cases hfile
  | cons next rest =>
    constructor
    · intro h
      exact ⟨hfind ▸ h.file, h.named⟩
    · intro h
      exact ⟨hfind ▸ h.file, h.named⟩

theorem exists_child_of_isDump {time : Nat} {below : List Bytes}
    (h : IsDump (.directory entries) ⟨name :: below, time⟩) :
    ∃ entry, FileTree.child? name entries = some entry := by
  obtain ⟨⟨bytes, hfile⟩, -⟩ := h
  simp only [FileTree.find] at hfile
  split at hfile
  · cases hfile
  · next entry hchild => exact ⟨entry, hchild⟩

theorem mem_map_under {time : Nat} {below : List Bytes} :
    ⟨name :: below, time⟩ ∈ dumps.map (FoundDump.under name) ↔ ⟨below, time⟩ ∈ dumps := by
  constructor
  · intro hmem
    obtain ⟨⟨_, _⟩, hbelow, heq⟩ := List.mem_map.mp hmem
    cases heq
    exact hbelow
  · intro hmem
    exact List.mem_map.mpr ⟨_, hmem, rfl⟩

theorem mem_dumpsIn_cons_iff (hnodup : (entries.map Prod.fst).Nodup) {time : Nat}
    {below : List Bytes} (h : dumpsIn tree path entries = .ok dumps) :
    ⟨name :: below, time⟩ ∈ dumps ↔ ∃ entry here, FileTree.child? name entries = some entry ∧
      dumpsAt tree (path.join name) name entry = .ok here ∧ ⟨name :: below, time⟩ ∈ here := by
  rw [mem_dumpsIn h]
  constructor
  · intro hgiven
    rcases hgiven with ⟨first, entry, here, hentry, hhere, hfound⟩
    obtain ⟨rest, heq⟩ := exists_below hhere hfound
    cases heq
    exact ⟨entry, here, FileTree.child?_of_mem hnodup hentry, hhere, hfound⟩
  · intro hgiven
    rcases hgiven with ⟨entry, here, hchild, hhere, hfound⟩
    exact ⟨name, entry, here, FileTree.mem_of_child? hchild, hhere, hfound⟩

/-- The dumps that are found are those that are there. -/
theorem mem_dumpsIn_iff (hentries : (FileTree.directory entries).WellFormed)
    (h : dumpsIn tree path entries = .ok dumps) :
    found ∈ dumps ↔ IsDump (.directory entries) found := by
  obtain ⟨below, time⟩ := found
  induction below generalizing entries path dumps with
  | nil =>
    constructor
    · intro hmem
      obtain ⟨name, entry, here, -, hhere, hfound⟩ := (mem_dumpsIn h).mp hmem
      obtain ⟨below, heq⟩ := exists_below hhere hfound
      cases heq
    · intro hgiven
      rcases hgiven with ⟨⟨bytes, hfile⟩, -⟩
      cases hfile
  | cons first rest ih =>
    have hstep : ∀ entry here, FileTree.child? first entries = some entry →
        dumpsAt tree (path.join first) first entry = .ok here →
        (⟨first :: rest, time⟩ ∈ here ↔ IsDump (.directory entries) ⟨first :: rest, time⟩) := by
      intro entry here hchild hhere
      cases entry with
      | file modified bytes => rw [mem_dumpsAt_file hhere, isDump_child_file hchild]
      | directory inner =>
        obtain ⟨-, deeper, hdeeper, rfl⟩ := dumpsAt_directory_eq_ok_iff.mp hhere
        rw [isDump_child_directory hchild,
          ← ih (hentries.entry (FileTree.mem_of_child? hchild)) hdeeper]
        exact mem_map_under
    rw [mem_dumpsIn_cons_iff hentries.nodup h]
    constructor
    · intro hgiven
      rcases hgiven with ⟨entry, here, hchild, hhere, hfound⟩
      exact (hstep entry here hchild hhere).mp hfound
    · intro hdump
      obtain ⟨entry, hchild⟩ := exists_child_of_isDump hdump
      obtain ⟨here, hhere⟩ := exists_dumpsAt h (FileTree.mem_of_child? hchild)
      exact ⟨entry, here, hchild, hhere, (hstep entry here hchild hhere).mpr hdump⟩

mutual

theorem nodup_dumpsAt (tree : FileTree) : ∀ (entry : FileTree) (path : FilePath) (name : Bytes)
    (here : List FoundDump), entry.WellFormed → dumpsAt tree path name entry = .ok here →
      (here.map (·.path)).Nodup
  | .file modified bytes, path, name, here, _, h => by
    rw [dumpsAt] at h
    cases h
    split <;> simp
  | .directory entries, path, name, here, hentry, h => by
    obtain ⟨-, deeper, hdeeper, rfl⟩ := dumpsAt_directory_eq_ok_iff.mp h
    have hentries := nodup_dumpsIn tree entries path deeper hentry.nodup
      (fun _ hmem => hentry.entry hmem) hdeeper
    rw [List.Nodup, List.pairwise_map] at hentries ⊢
    rw [List.pairwise_map]
    refine hentries.imp ?_
    intro a b hne heq
    exact hne (List.cons.inj heq).2

theorem nodup_dumpsIn (tree : FileTree) : ∀ (entries : List (Bytes × FileTree)) (path : FilePath)
    (dumps : List FoundDump), (entries.map Prod.fst).Nodup →
      (∀ entry ∈ entries, entry.2.WellFormed) → dumpsIn tree path entries = .ok dumps →
      (dumps.map (·.path)).Nodup
  | [], path, dumps, _, _, h => by
    cases h
    exact List.nodup_nil
  | (name, entry) :: rest, path, dumps, hnames, hbelow, h => by
    obtain ⟨hfirst, hrest⟩ := List.nodup_cons.mp hnames
    obtain ⟨hentry, hbelow⟩ := List.forall_mem_cons.mp hbelow
    obtain ⟨here, behind, hhere, hbehind, rfl⟩ := dumpsIn_cons_eq_ok_iff.mp h
    rw [List.map_append, List.nodup_append]
    refine ⟨nodup_dumpsAt tree entry _ name here hentry hhere,
      nodup_dumpsIn tree rest path behind hrest hbelow hbehind, ?_⟩
    -- Dumps in different entries differ in the first part of their paths.
    intro one hone other hother heq
    obtain ⟨a, ha, rfl⟩ := List.mem_map.mp hone
    obtain ⟨b, hb, rfl⟩ := List.mem_map.mp hother
    obtain ⟨otherName, otherEntry, there, hmem, hthere, hfound⟩ := (mem_dumpsIn hbehind).mp hb
    obtain ⟨below, hbelow⟩ := exists_below hhere ha
    obtain ⟨otherBelow, hotherBelow⟩ := exists_below hthere hfound
    rw [hbelow, hotherBelow] at heq
    cases heq
    exact hfirst (List.mem_map.mpr ⟨_, hmem, rfl⟩)

end

/-! ## What is read -/

/-- Where dumps are found, every directory has been read by its path. -/
theorem readDirectory_of_dumpsIn (h : dumpsIn tree path entries = .ok dumps) {below : List Bytes}
    (hbelow : (FileTree.directory entries).IsDirectory below) (hne : below ≠ []) :
    ∃ read, tree.readDirectory (below.foldl FilePath.join path) = .ok read := by
  induction below generalizing entries path dumps with
  | nil => exact absurd rfl hne
  | cons name rest ih =>
    obtain ⟨others, hothers⟩ := hbelow
    rw [← List.nil_append (name :: rest)] at hothers
    obtain ⟨_, entry, heq, hchild, hfind⟩ := FileTree.exists_child_of_find hothers
    cases heq
    obtain ⟨here, hhere⟩ := exists_dumpsAt h (FileTree.mem_of_child? hchild)
    cases entry with
    | file modified bytes => cases rest <;> cases hfind
    | directory inner =>
      obtain ⟨hread, deeper, hdeeper, -⟩ := dumpsAt_directory_eq_ok_iff.mp hhere
      by_cases hrest : rest = []
      · subst hrest
        exact hread
      · exact ih hdeeper ⟨others, hfind⟩ hrest

mutual

/-- Where a search fails there is a directory that cannot be read. -/
theorem exists_unread_of_dumpsAt (tree : FileTree) (error : FileError) : ∀ (entry : FileTree)
    (path : FilePath) (name : Bytes), entry.WellFormed →
      dumpsAt tree path name entry = .error error →
      ∃ below, entry.IsDirectory below ∧
        tree.readDirectory (below.foldl FilePath.join path) = .error error
  | .file modified bytes, path, name, _, h => by cases h
  | .directory entries, path, name, hentry, h => by
    rw [dumpsAt] at h
    split at h
    · next hread =>
      cases h
      exact ⟨[], ⟨entries, rfl⟩, hread⟩
    · obtain ⟨inner, sub, below, hmem, ⟨others, hbelow⟩, hread⟩ :=
        exists_unread_of_dumpsIn tree error entries path (fun _ hmem => hentry.entry hmem)
          (Outcome.map_eq_error.mp h)
      refine ⟨inner :: below, ⟨others, ?_⟩, hread⟩
      simp only [FileTree.find, FileTree.child?_of_mem hentry.nodup hmem, hbelow]

theorem exists_unread_of_dumpsIn (tree : FileTree) (error : FileError) :
    ∀ (entries : List (Bytes × FileTree)) (path : FilePath),
      (∀ entry ∈ entries, entry.2.WellFormed) → dumpsIn tree path entries = .error error →
      ∃ name entry below, (name, entry) ∈ entries ∧ entry.IsDirectory below ∧
        tree.readDirectory ((name :: below).foldl FilePath.join path) = .error error
  | [], path, _, h => by cases h
  | (name, entry) :: rest, path, hentries, h => by
    obtain ⟨hentry, hrest⟩ := List.forall_mem_cons.mp hentries
    rw [dumpsIn, Outcome.bind_eq_error] at h
    rcases h with hhere | ⟨here, -, h⟩
    · obtain ⟨below, hbelow, hread⟩ :=
        exists_unread_of_dumpsAt tree error entry (path.join name) name hentry hhere
      exact ⟨name, entry, below, List.mem_cons_self, hbelow, hread⟩
    · rcases Outcome.bind_eq_error.mp h with hbehind | ⟨behind, -, hpure⟩
      · obtain ⟨other, sub, below, hmem, hbelow, hread⟩ :=
          exists_unread_of_dumpsIn tree error rest path hrest hbehind
        exact ⟨other, sub, below, List.mem_cons_of_mem _ hmem, hbelow, hread⟩
      · cases hpure

end

/-! ## The order of dumps -/

def NameLt : Bytes → Bytes → Prop := List.Lex (· < ·)

instance : Std.Trichotomous NameLt := List.Lex.trichotomous _

theorem NameLt.irrefl (name : Bytes) : ¬ NameLt name name := List.lex_irrefl UInt8.lt_irrefl name

theorem NameLt.trans {a b c : Bytes} (hab : NameLt a b) (hbc : NameLt b c) : NameLt a c :=
  List.lex_trans UInt8.lt_trans hab hbc

theorem NameLt.asymm {a b : Bytes} (hab : NameLt a b) : ¬ NameLt b a :=
  List.lex_asymm UInt8.lt_asymm hab

theorem nameLt_iff (a b : Bytes) : nameLt a b = true ↔ NameLt a b := by
  simp [nameLt, NameLt, List.lex_eq_true_iff_lex]

theorem pathLe_iff (a b : List Bytes) : pathLe a b = true ↔ a = b ∨ List.Lex NameLt a b := by
  induction a generalizing b with
  | nil => cases b <;> simp [pathLe]
  | cons first rest ih =>
    cases b with
    | nil => simp [pathLe]
    | cons other more =>
      rw [List.cons_lex_cons_iff, pathLe]
      by_cases heq : first = other
      · simp [heq, ih, NameLt.irrefl]
      · simp [heq, nameLt_iff]

theorem pathLe_trans {a b c : List Bytes} (hab : pathLe a b = true)
    (hbc : pathLe b c = true) : pathLe a c = true := by
  rw [pathLe_iff] at hab hbc ⊢
  rcases hab with rfl | hab
  · exact hbc
  · rcases hbc with rfl | hbc
    · exact .inr hab
    · exact .inr (List.lex_trans NameLt.trans hab hbc)

theorem pathLe_total (a b : List Bytes) : pathLe a b = true ∨ pathLe b a = true := by
  have htrichotomous := List.Lex.trichotomous NameLt
  rw [pathLe_iff, pathLe_iff]
  rcases htrichotomous.rel_or_eq_or_rel_swap (a := a) (b := b) with hlt | heq | hgt
  · exact .inl (.inr hlt)
  · exact .inl (.inl heq)
  · exact .inr (.inr hgt)

/-- Older, or of the same time and with a path that comes first, part by part. -/
def Precedes (a b : FoundDump) : Prop :=
  a.modified < b.modified ∨ (a.modified = b.modified ∧ List.Lex NameLt a.path b.path)

theorem Precedes.asymm {a b : FoundDump} (hab : Precedes a b) (hba : Precedes b a) : False := by
  rcases hab with hab | ⟨hab, hpath⟩
  · rcases hba with hba | ⟨hba, -⟩
    · exact Nat.lt_asymm hab hba
    · exact Nat.lt_irrefl _ (hba ▸ hab)
  · rcases hba with hba | ⟨-, hother⟩
    · exact Nat.lt_irrefl _ (hab ▸ hba)
    · exact List.lex_asymm NameLt.asymm hpath hother

theorem earlier_iff (a b : FoundDump) :
    earlier a b = true ↔
      a.modified < b.modified ∨ (a.modified = b.modified ∧ pathLe a.path b.path = true) := by
  unfold earlier
  split
  · next heq => simp [heq]
  · next hne => simp [hne]

theorem earlier_trans (a b c : FoundDump) (hab : earlier a b = true)
    (hbc : earlier b c = true) : earlier a c = true := by
  rw [earlier_iff] at hab hbc ⊢
  rcases hab with hab | ⟨hab, hpath⟩
  · rcases hbc with hbc | ⟨hbc, -⟩
    · exact .inl (Nat.lt_trans hab hbc)
    · exact .inl (hbc ▸ hab)
  · rcases hbc with hbc | ⟨hbc, hnext⟩
    · exact .inl (hab ▸ hbc)
    · exact .inr ⟨hab.trans hbc, pathLe_trans hpath hnext⟩

theorem earlier_total (a b : FoundDump) : (earlier a b || earlier b a) = true := by
  rw [Bool.or_eq_true, earlier_iff, earlier_iff]
  rcases Nat.lt_trichotomy a.modified b.modified with hlt | heq | hgt
  · exact .inl (.inl hlt)
  · rcases pathLe_total a.path b.path with hle | hle
    · exact .inl (.inr ⟨heq, hle⟩)
    · exact .inr (.inr ⟨heq.symm, hle⟩)
  · exact .inr (.inl hgt)

theorem precedes_of_earlier {a b : FoundDump} (h : earlier a b = true) (hne : a.path ≠ b.path) :
    Precedes a b := by
  rcases (earlier_iff a b).mp h with hlt | ⟨heq, hle⟩
  · exact .inl hlt
  · exact .inr ⟨heq, ((pathLe_iff _ _).mp hle).resolve_left hne⟩

/-! ## The dumps in their order -/

/-- The dumps below a directory, each once, and each after those that precede it. -/
structure Lists (tree : FileTree) (dumps : List FoundDump) : Prop where
  mem : ∀ found, found ∈ dumps ↔ IsDump tree found
  sorted : dumps.Pairwise Precedes

theorem Lists.unique {tree : FileTree} {dumps other : List FoundDump} (h : Lists tree dumps)
    (hother : Lists tree other) : dumps = other := by
  have hnodup : ∀ {dumps : List FoundDump}, dumps.Pairwise Precedes → dumps.Nodup := by
    intro dumps hsorted
    refine hsorted.imp ?_
    rintro a b hab rfl
    exact hab.asymm hab
  have hperm : dumps.Perm other := by
    rw [List.perm_ext_iff_of_nodup (hnodup h.sorted) (hnodup hother.sorted)]
    intro found
    rw [h.mem, hother.mem]
  exact hperm.eq_of_pairwise (fun a b _ _ hab hba => (hab.asymm hba).elim) h.sorted hother.sorted

/-- Dumps with one path are one dump, so no path is listed twice. -/
theorem Lists.nodup_paths {tree : FileTree} {dumps : List FoundDump} (h : Lists tree dumps) :
    (dumps.map (·.path)).Nodup := by
  rw [List.Nodup, List.pairwise_map]
  refine h.sorted.imp_of_mem ?_
  intro a b ha hb hab heq
  obtain ⟨⟨bytes, hfile⟩, -⟩ := (h.mem a).mp ha
  obtain ⟨⟨contents, hother⟩, -⟩ := (h.mem b).mp hb
  obtain ⟨path, modified⟩ := a
  cases heq
  cases hfile.symm.trans hother
  exact hab.asymm hab

theorem order_lists (hentries : (FileTree.directory entries).WellFormed)
    (h : dumpsIn tree path entries = .ok dumps) : Lists (.directory entries) (order dumps) where
  mem found := by
    rw [order, (List.mergeSort_perm _ _).mem_iff, mem_dumpsIn_iff hentries h]
  sorted := by
    have hpaths := nodup_dumpsIn tree entries path dumps hentries.nodup
      (fun _ hmem => hentries.entry hmem) h
    rw [List.Nodup, List.pairwise_map] at hpaths
    have hdistinct : (order dumps).Pairwise fun a b => a.path ≠ b.path :=
      (List.mergeSort_perm dumps earlier).symm.pairwise hpaths fun hne => hne.symm
    have hearlier := List.pairwise_mergeSort earlier_trans earlier_total dumps
    exact (hearlier.and hdistinct).imp fun hpair => precedes_of_earlier hpair.1 hpair.2

/-! ## A search -/

section
variable {place : List Bytes}

/-- A directory below the one searched is read by its path, unless this is too long. -/
theorem readDirectory_below (htree : tree.WellFormed) (hlocate : tree.locate path = .ok place)
    (hfind : tree.find place = .ok (.directory entries)) {below : List Bytes}
    (hbelow : (FileTree.directory entries).IsDirectory below) :
    path.Fits below ∧ (∃ read, tree.readDirectory (below.foldl FilePath.join path) = .ok read) ∨
      ¬ path.Fits below ∧
        tree.readDirectory (below.foldl FilePath.join path) = .error .nameTooLong := by
  obtain ⟨others, hothers⟩ := hbelow
  have hthere := (FileTree.find_append_of_ok hfind below).trans hothers
  have hnames := (htree.below hfind).isName hothers
  rcases FileTree.readDirectory_foldl_join hnames hlocate hthere with ⟨hfits, hread⟩ | hunread
  · exact .inl ⟨hfits, others, hread⟩
  · exact .inr hunread

/-- From where its path leads, a search fails if there is a directory whose path is too long to
be read, and lists the dumps otherwise. -/
theorem scan_cases (htree : tree.WellFormed) (hlocate : tree.locate path = .ok place)
    (hfind : tree.find place = .ok (.directory entries)) :
    (∃ dumps, scan tree path = .ok dumps ∧ Lists (.directory entries) dumps ∧
        ∀ below, (FileTree.directory entries).IsDirectory below → path.Fits below) ∨
      scan tree path = .error .nameTooLong ∧
        ∃ below, (FileTree.directory entries).IsDirectory below ∧ ¬ path.Fits below := by
  have hentries := htree.below hfind
  have hroot : tree.readDirectory path = .ok entries := by
    simp only [FileTree.readDirectory, FileTree.findPath, hlocate, hfind]
  cases hdumps : dumpsIn tree path entries with
  | error error =>
    obtain ⟨name, entry, below, hmem, ⟨others, hbelow⟩, hunread⟩ :=
      exists_unread_of_dumpsIn tree error entries path (fun _ hmem => hentries.entry hmem) hdumps
    have hthere : (FileTree.directory entries).IsDirectory (name :: below) :=
      ⟨others, by simp only [FileTree.find, FileTree.child?_of_mem hentries.nodup hmem, hbelow]⟩
    rcases readDirectory_below htree hlocate hfind hthere with ⟨-, read, hread⟩ | ⟨hlong, hread⟩
    · cases hread.symm.trans hunread
    · cases hread.symm.trans hunread
      exact .inr ⟨by simp only [scan, hroot, hdumps, Except.map], name :: below, hthere, hlong⟩
  | ok dumps =>
    refine .inl ⟨order dumps, by simp only [scan, hroot, hdumps, Except.map],
      order_lists hentries hdumps, ?_⟩
    intro below hthere
    rcases readDirectory_below htree hlocate hfind hthere with ⟨hfits, -⟩ | ⟨-, hunread⟩
    · exact hfits
    · have hne : below ≠ [] := by
        rintro rfl
        rw [List.foldl_nil, hroot] at hunread
        cases hunread
      obtain ⟨read, hread⟩ := readDirectory_of_dumpsIn hdumps hthere hne
      cases hread.symm.trans hunread

end

/-- A scan that succeeds walks to a directory and lists the dumps below it. -/
theorem scan_eq_ok (htree : tree.WellFormed) (hscan : scan tree path = .ok dumps) :
    ∃ place directory, tree.locate path = .ok place ∧ tree.find place = .ok directory ∧
      Lists directory dumps := by
  have hread := hscan
  unfold scan FileTree.readDirectory FileTree.findPath at hread
  cases hlocate : tree.locate path with
  | error error => simp [hlocate] at hread
  | ok place =>
    rcases hfind : tree.find place with error | ⟨modified, bytes⟩ | entries
    · simp [hlocate, hfind] at hread
    · simp [hlocate, hfind] at hread
    · rcases scan_cases htree hlocate hfind with ⟨_, hlisted, hlists, -⟩ | ⟨hfailed, -⟩
      · cases hlisted.symm.trans hscan
        exact ⟨place, _, rfl, hfind, hlists⟩
      · cases hfailed.symm.trans hscan

end Discovery

end TypeAtlas
