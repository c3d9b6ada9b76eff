import TypeAtlas.Proofs.Files.Discovery

/-!
# Discovery in any order of enumeration

Directories may be enumerated in any order. Trees that differ in nothing else have the same files
at the same places and are walked in the same way, so a scan lists the same dumps: those that are
there, each once, sorted by their times and paths. It fails on all of these trees if the path of a
directory is too long to be read.
-/

namespace TypeAtlas

namespace FileTree

/-- Two trees that differ in the order in which directories are enumerated: the entries of one
directory change places, maybe in a directory below, and so on. -/
inductive Reordered : FileTree → FileTree → Prop
  | refl (tree : FileTree) : Reordered tree tree
  | entries {entries others : List (Bytes × FileTree)} (h : entries.Perm others) :
    Reordered (.directory entries) (.directory others)
  | entry {before after : List (Bytes × FileTree)} {name : Bytes} {tree other : FileTree}
    (h : Reordered tree other) :
    Reordered (.directory (before ++ (name, tree) :: after))
      (.directory (before ++ (name, other) :: after))
  | trans {tree other third : FileTree} (hfirst : Reordered tree other)
    (hsecond : Reordered other third) : Reordered tree third

variable {tree other third : FileTree} {entries others : List (Bytes × FileTree)} {name : Bytes}

theorem Reordered.shape (h : Reordered tree other) :
    (∃ modified bytes, tree = .file modified bytes ∧ other = .file modified bytes) ∨
      ∃ entries others, tree = .directory entries ∧ other = .directory others ∧
        (entries.map Prod.fst).Perm (others.map Prod.fst) := by
  induction h with
  | refl tree =>
    cases tree with
    | file modified bytes => exact .inl ⟨modified, bytes, rfl, rfl⟩
    | directory entries => exact .inr ⟨entries, entries, rfl, rfl, .refl _⟩
  | entries hperm => exact .inr ⟨_, _, rfl, rfl, hperm.map Prod.fst⟩
  | entry _ _ =>
    refine .inr ⟨_, _, rfl, rfl, ?_⟩
    simp only [List.map_append, List.map_cons]
    exact .refl _
  | trans _ _ hfirst hsecond =>
    rcases hfirst with ⟨modified, bytes, rfl, rfl⟩ | ⟨entries, others, rfl, rfl, hperm⟩
    · rcases hsecond with ⟨_, _, heq, rfl⟩ | ⟨_, _, heq, -⟩
      · cases heq
        exact .inl ⟨modified, bytes, rfl, rfl⟩
      · cases heq
    · rcases hsecond with ⟨_, _, heq, -⟩ | ⟨_, _, heq, rfl, hnext⟩
      · cases heq
      · cases heq
        exact .inr ⟨_, _, rfl, rfl, hperm.trans hnext⟩

/-! ## The same things at the same places -/

/-- Nothing is found in either case, for one reason, or what is found differs in the order of
enumeration alone. -/
inductive FoundAlike : Except FileError FileTree → Except FileError FileTree → Prop
  | error (error : FileError) : FoundAlike (.error error) (.error error)
  | ok {tree other : FileTree} (h : Reordered tree other) : FoundAlike (.ok tree) (.ok other)

theorem foundAlike_refl (found : Except FileError FileTree) : FoundAlike found found := by
  cases found with
  | error error => exact .error error
  | ok tree => exact .ok (.refl tree)

theorem FoundAlike.trans {first second third : Except FileError FileTree}
    (h : FoundAlike first second) (hnext : FoundAlike second third) : FoundAlike first third := by
  cases h with
  | error error => exact hnext
  | ok h =>
    cases hnext with
    | ok hnext => exact .ok (h.trans hnext)

def SamePlaces (tree other : FileTree) : Prop :=
  ∀ place, FoundAlike (tree.find place) (other.find place)

theorem SamePlaces.wellFormed (h : SamePlaces tree other) (htree : tree.WellFormed) :
    other.WellFormed := by
  intro place others hothers
  have hplace := h place
  rw [hothers] at hplace
  generalize hfind : tree.find place = found at hplace
  cases hplace with
  | ok hreordered =>
    rcases hreordered.shape with ⟨_, _, _, heq⟩ | ⟨entries, _, rfl, heq, hperm⟩
    · cases heq
    · cases heq
      obtain ⟨hnodup, hnames⟩ := htree place entries hfind
      exact ⟨hperm.nodup_iff.mp hnodup, fun name hmem => hnames name (hperm.mem_iff.mpr hmem)⟩

theorem child?_append (front back : List (Bytes × FileTree)) :
    child? name (front ++ back) = (child? name front).or (child? name back) := by
  induction front with
  | nil => rfl
  | cons first rest ih =>
    rw [List.cons_append, child?, child?]
    split
    · rfl
    · exact ih

theorem child?_perm (hperm : entries.Perm others) (hnodup : (entries.map Prod.fst).Nodup)
    (name : Bytes) : child? name entries = child? name others := by
  have hothers := (hperm.map Prod.fst).nodup_iff.mp hnodup
  apply Option.ext
  intro sub
  constructor
  · intro h
    exact child?_of_mem hothers (hperm.mem_iff.mp (mem_of_child? h))
  · intro h
    exact child?_of_mem hnodup (hperm.mem_iff.mpr (mem_of_child? h))

theorem Reordered.samePlaces (h : Reordered tree other) (htree : tree.WellFormed) :
    SamePlaces tree other := by
  induction h with
  | refl tree => exact fun place => foundAlike_refl _
  | @entries entries others hperm =>
    intro place
    cases place with
    | nil => exact .ok (.entries hperm)
    | cons name rest =>
      rw [find, find, child?_perm hperm htree.nodup]
      exact foundAlike_refl _
  | @entry before after name tree other hreordered ih =>
    have hbelow := ih (htree.entry (List.mem_append_right before List.mem_cons_self))
    intro place
    cases place with
    | nil => exact .ok (.entry hreordered)
    | cons first rest =>
      rw [find, find, child?_append, child?_append]
      cases child? first before with
      | some sub => exact foundAlike_refl _
      | none =>
        by_cases heq : name = first
        · simp only [child?, if_pos heq]
          exact hbelow rest
        · simp only [child?, if_neg heq]
          exact foundAlike_refl _
  | trans _ _ ih ihnext =>
    have hfirst := ih htree
    exact fun place => (hfirst place).trans (ihnext (hfirst.wellFormed htree) place)

/-! ## Walking -/

theorem isSome_child?_iff : (child? name entries).isSome ↔ name ∈ entries.map Prod.fst := by
  induction entries with
  | nil => simp [child?]
  | cons first rest ih =>
    rw [child?, List.map_cons, List.mem_cons]
    by_cases heq : first.1 = name
    · simp [heq]
    · simp [heq, ih, Ne.symm heq]

theorem SamePlaces.take (h : SamePlaces tree other) (place : List Bytes) (step : PathStep) :
    other.take place step = tree.take place step := by
  have hplace := h place
  unfold FileTree.take
  generalize tree.find place = found, other.find place = otherFound at hplace
  cases hplace with
  | error error => rfl
  | ok hreordered =>
    rcases hreordered.shape with ⟨_, _, rfl, rfl⟩ | ⟨entries, others, rfl, rfl, hperm⟩
    · rfl
    · cases step with
      | stay | up => rfl
      | down name =>
        have hsome : (child? name others).isSome = (child? name entries).isSome := by
          rw [Bool.eq_iff_iff, isSome_child?_iff, isSome_child?_iff, hperm.mem_iff]
        cases hchild : child? name entries with
        | none =>
          have hnone : child? name others = none := by simpa [hchild] using hsome
          simp only [hchild, hnone]
        | some sub =>
          rw [hchild] at hsome
          obtain ⟨otherSub, hother⟩ := Option.isSome_iff_exists.mp hsome
          simp only [hchild, hother]

theorem SamePlaces.walk (h : SamePlaces tree other) (place : List Bytes)
    (steps : List PathStep) : other.walk place steps = tree.walk place steps := by
  induction steps generalizing place with
  | nil => rfl
  | cons step rest ih =>
    simp only [FileTree.walk, h.take, ih]

theorem SamePlaces.locate (h : SamePlaces tree other) (path : FilePath) :
    other.locate path = tree.locate path := by
  simp only [FileTree.locate, h.walk]

/-- Below a place at which something is found, the same places are found again. -/
theorem SamePlaces.below (h : SamePlaces tree other) {place : List Bytes}
    {sub otherSub : FileTree} (hsub : tree.find place = .ok sub)
    (hother : other.find place = .ok otherSub) : SamePlaces sub otherSub := by
  intro deeper
  rw [← find_append_of_ok hsub, ← find_append_of_ok hother]
  exact h (place ++ deeper)

theorem SamePlaces.find_file_iff (h : SamePlaces tree other) {place : List Bytes}
    {modified : Nat} {bytes : Bytes} :
    tree.find place = .ok (.file modified bytes) ↔
      other.find place = .ok (.file modified bytes) := by
  have hplace := h place
  generalize tree.find place = found, other.find place = otherFound at hplace
  cases hplace with
  | error error => simp
  | ok hreordered =>
    rcases hreordered.shape with ⟨_, _, rfl, rfl⟩ | ⟨_, _, rfl, rfl, -⟩
    · rfl
    · simp

end FileTree

namespace Discovery

open FileTree

variable {tree other : FileTree} {entries others : List (Bytes × FileTree)}
  {found : FoundDump} {path : FilePath}

theorem isDump_iff_of_samePlaces (h : SamePlaces tree other) :
    IsDump tree found ↔ IsDump other found := by
  constructor
  · intro hgiven
    rcases hgiven with ⟨⟨bytes, hfile⟩, hnamed⟩
    exact ⟨⟨bytes, h.find_file_iff.mp hfile⟩, hnamed⟩
  · intro hgiven
    rcases hgiven with ⟨⟨bytes, hfile⟩, hnamed⟩
    exact ⟨⟨bytes, h.find_file_iff.mpr hfile⟩, hnamed⟩

theorem isDirectory_iff_of_samePlaces (h : SamePlaces tree other) (place : List Bytes) :
    tree.IsDirectory place ↔ other.IsDirectory place := by
  have hplace := h place
  unfold IsDirectory
  generalize tree.find place = here, other.find place = there at hplace
  cases hplace with
  | error error => simp
  | ok hreordered =>
    rcases hreordered.shape with ⟨_, _, rfl, rfl⟩ | ⟨_, _, rfl, rfl, -⟩
    · simp
    · simp

theorem lists_of_samePlaces {dumps : List FoundDump} (h : SamePlaces tree other)
    (hlists : Lists other dumps) : Lists tree dumps := by
  refine ⟨?_, hlists.sorted⟩
  intro found
  rw [hlists.mem, isDump_iff_of_samePlaces h]

/-- However directories are enumerated, a scan comes to the same. -/
theorem scan_of_reordered (htree : tree.WellFormed) (h : Reordered tree other)
    (path : FilePath) : scan other path = scan tree path := by
  have hsame := h.samePlaces htree
  have hwell := hsame.wellFormed htree
  cases hlocate : tree.locate path with
  | error error =>
    have hother := (hsame.locate path).trans hlocate
    simp only [scan, readDirectory, findPath, hlocate, hother]
  | ok place =>
    have hother := (hsame.locate path).trans hlocate
    have hplace := hsame place
    generalize hfound : tree.find place = sub, hthere : other.find place = otherSub at hplace
    cases hplace with
    | error error => simp only [scan, readDirectory, findPath, hlocate, hother, hfound, hthere]
    | ok hreordered =>
      rcases hreordered.shape with ⟨_, _, rfl, rfl⟩ | ⟨entries, others, rfl, rfl, -⟩
      · simp only [scan, readDirectory, findPath, hlocate, hother, hfound, hthere]
      · have hbelow := hsame.below hfound hthere
        rcases scan_cases htree hlocate hfound with ⟨dumps, hscan, hlists, hfits⟩ | ⟨hscan, hlong⟩
        · rcases scan_cases hwell hother hthere with ⟨_, hotherScan, hotherLists, -⟩ | ⟨-, hlong⟩
          · rw [hscan, hotherScan, (lists_of_samePlaces hbelow hotherLists).unique hlists]
          · obtain ⟨below, hdirectory, hlong⟩ := hlong
            have hdirectory := (isDirectory_iff_of_samePlaces hbelow below).mpr hdirectory
            exact absurd (hfits below hdirectory) hlong
        · rcases scan_cases hwell hother hthere with ⟨_, -, -, hfits⟩ | ⟨hotherScan, -⟩
          · obtain ⟨below, hdirectory, hlong⟩ := hlong
            have hdirectory := (isDirectory_iff_of_samePlaces hbelow below).mp hdirectory
            exact absurd (hfits below hdirectory) hlong
          · rw [hscan, hotherScan]

/-- As long as the path of every directory can be read, a scan lists every file whose name is
text and ends as those of dumps do, at any depth and whatever the directories on the way are
called, each once and nothing else. They are sorted by their times, and those of one time by
their paths, part by part. Where a path is too long the scan fails. The order in which
directories are enumerated has no part in it. -/
theorem scan_lists_dumps {place : List Bytes} (htree : tree.WellFormed)
    (hlocate : tree.locate path = .ok place)
    (hdirectory : tree.find place = .ok (.directory entries)) :
    (∀ other, Reordered tree other → scan other path = scan tree path) ∧
    ((∃ below, (directory entries).IsDirectory below ∧ ¬ path.Fits below) →
      scan tree path = .error .nameTooLong) ∧
    ((∀ below, (directory entries).IsDirectory below → path.Fits below) →
      ∃ dumps, scan tree path = .ok dumps ∧
        (∀ found, found ∈ dumps ↔ IsDump (.directory entries) found) ∧
        (dumps.map (·.path)).Nodup ∧ dumps.Pairwise Precedes ∧
        ∀ found ∈ dumps,
          (found.path.foldl FilePath.join path).steps = path.steps ++ found.path.map .down) := by
  refine ⟨fun other h => scan_of_reordered htree h path, ?_, ?_⟩
  · intro hgiven
    rcases hgiven with ⟨below, hbelow, hlong⟩
    rcases scan_cases htree hlocate hdirectory with ⟨_, -, -, hfits⟩ | ⟨hscan, -⟩
    · exact absurd (hfits below hbelow) hlong
    · exact hscan
  · intro hfits
    rcases scan_cases htree hlocate hdirectory with ⟨dumps, hscan, hlists, -⟩ | ⟨-, hlong⟩
    · refine ⟨dumps, hscan, hlists.mem, hlists.nodup_paths, hlists.sorted, ?_⟩
      intro found hmem
      obtain ⟨⟨bytes, hfile⟩, -⟩ := (hlists.mem found).mp hmem
      exact FilePath.steps_foldl_join ((htree.below hdirectory).isName hfile) path
    · obtain ⟨below, hbelow, hlong⟩ := hlong
      exact absurd (hfits below hbelow) hlong

/-- A directory that is named as dumps are, with a dump in it. -/
def misnamed : FileTree := .directory [
  (Bytes.ofString "y.reflection.dat", .file 1 []), (Bytes.ofString "y.txt", .file 2 [])]

/-- Beside it a dump of the same time as one above, whose path comes before that one's part by
part, but not as a text. Then a directory whose name is not text, with a dump in it, and a file
whose name ends as those of dumps do without being text. -/
def scattered : List (Bytes × FileTree) := [
  (Bytes.ofString "a-b.reflection.dat", .file 5 []),
  (Bytes.ofString "a", .directory [
    (Bytes.ofString "z.reflection.dat", .file 5 []),
    (Bytes.ofString "old.reflection.dat", misnamed)]),
  ([0xFF], .directory [(Bytes.ofString "x.reflection.dat", .file 9 [])]),
  (0xFF :: Bytes.ofString ".reflection.dat", .file 9 [])]

theorem wellFormed_scattered : (directory scattered).WellFormed := by
  have hmisnamed : misnamed.WellFormed :=
    wellFormed_directory (by decide +kernel) (by decide +kernel) (by simp [wellFormed_file])
  have hinner : (directory [(Bytes.ofString "z.reflection.dat", .file 5 []),
      (Bytes.ofString "old.reflection.dat", misnamed)]).WellFormed :=
    wellFormed_directory (by decide +kernel) (by decide +kernel)
      (by simp [wellFormed_file, hmisnamed])
  have hother : (directory [(Bytes.ofString "x.reflection.dat", .file 9 [])]).WellFormed :=
    wellFormed_directory (by decide +kernel) (by decide +kernel) (by simp [wellFormed_file])
  exact wellFormed_directory (by decide +kernel) (by decide +kernel)
    (by simp [scattered, wellFormed_file, hinner, hother])

theorem earlier_of_ne {a b : FoundDump} (h : a.modified ≠ b.modified) :
    earlier a b = decide (a.modified < b.modified) := if_neg h

def scatteredDumps : List FoundDump := [
  ⟨[Bytes.ofString "a", Bytes.ofString "old.reflection.dat",
    Bytes.ofString "y.reflection.dat"], 1⟩,
  ⟨[Bytes.ofString "a", Bytes.ofString "z.reflection.dat"], 5⟩,
  ⟨[Bytes.ofString "a-b.reflection.dat"], 5⟩,
  ⟨[[0xFF], Bytes.ofString "x.reflection.dat"], 9⟩]

theorem scan_scattered : scan (directory scattered) (.ofText ".") = .ok scatteredDumps := by
  have hfound : dumpsIn (directory scattered) (.ofText ".") scattered = .ok [
      ⟨[Bytes.ofString "a-b.reflection.dat"], 5⟩,
      ⟨[Bytes.ofString "a", Bytes.ofString "z.reflection.dat"], 5⟩,
      ⟨[Bytes.ofString "a", Bytes.ofString "old.reflection.dat",
        Bytes.ofString "y.reflection.dat"], 1⟩,
      ⟨[[0xFF], Bytes.ofString "x.reflection.dat"], 9⟩] := by
    decide +kernel
  have hread : (directory scattered).readDirectory (.ofText ".") = .ok scattered := rfl
  -- The two found at one time are told apart by their first parts.
  have hpath : earlier ⟨[Bytes.ofString "a-b.reflection.dat"], 5⟩
      ⟨[Bytes.ofString "a", Bytes.ofString "z.reflection.dat"], 5⟩ = false := by
    decide +kernel
  simp only [scan, hread, hfound, Except.map, order]
  simp [List.mergeSort, hpath, earlier_of_ne, scatteredDumps]

theorem scan_lists_dumps_scattered :
    (directory scattered).WellFormed ∧ (directory scattered).locate (.ofText ".") = .ok [] ∧
      (∀ below, (directory scattered).IsDirectory below → (FilePath.ofText ".").Fits below) ∧
      Reordered (directory scattered) (directory scattered.reverse) ∧
      scan (directory scattered.reverse) (.ofText ".") = .ok scatteredDumps := by
  have hlocate : (directory scattered).locate (.ofText ".") = .ok [] := rfl
  have hreordered : Reordered (directory scattered) (directory scattered.reverse) :=
    .entries (List.reverse_perm scattered).symm
  obtain ⟨horders, hfails, -⟩ := scan_lists_dumps wellFormed_scattered hlocate rfl
  have hscan := (horders _ hreordered).trans scan_scattered
  refine ⟨wellFormed_scattered, hlocate, ?_, hreordered, hscan⟩
  intro below hbelow
  by_contra hlong
  cases (hfails ⟨below, hbelow, hlong⟩).symm.trans scan_scattered

/-- A file whose name ends as those of dumps do, whether or not it is text. -/
structure EndsAsDump (tree : FileTree) (found : FoundDump) : Prop where
  file : ∃ bytes, tree.find found.path = .ok (.file found.modified bytes)
  ending : ∃ front, found.path.getLast? = some (front ++ Bytes.ofString ".reflection.dat")

/-- A dump beside a directory without entries, whose name is as long as names can be. -/
def wide : List (Bytes × FileTree) := [
  (Bytes.ofString "a.reflection.dat", .file 1 []), (List.replicate 255 0x64, .emptyDirectory)]

/-- A path that leaves no room for such a name behind it. -/
def winding : FilePath := ⟨Bytes.ofString "s/" ++ (List.replicate 1949 [0x2E, 0x2F]).flatten⟩

/-- A file with the ending is passed over if its name is not text; and a directory that cannot be
read by its path, though it is empty, keeps a scan from listing the dump beside it. -/
theorem scan_misses_ending :
    (EndsAsDump (directory scattered) ⟨[0xFF :: Bytes.ofString ".reflection.dat"], 9⟩ ∧
      scan (directory scattered) (.ofText ".") = .ok scatteredDumps ∧
      ⟨[0xFF :: Bytes.ofString ".reflection.dat"], 9⟩ ∉ scatteredDumps) ∧
    EndsAsDump (directory wide) ⟨[Bytes.ofString "a.reflection.dat"], 1⟩ ∧
      (directory [(Bytes.ofString "s", directory wide)]).findPath winding = .ok (directory wide) ∧
      scan (directory [(Bytes.ofString "s", directory wide)]) winding = .error .nameTooLong := by
  have hlocate : (directory [(Bytes.ofString "s", directory wide)]).locate winding =
      .ok [Bytes.ofString "s"] := by
    decide +kernel
  have hfind : (directory [(Bytes.ofString "s", directory wide)]).findPath winding =
      .ok (directory wide) := by
    rw [findPath, hlocate]
    rfl
  refine ⟨⟨⟨⟨[], rfl⟩, [0xFF], rfl⟩, scan_scattered, by decide +kernel⟩,
    ⟨⟨[], rfl⟩, Bytes.ofString "a", rfl⟩, hfind, ?_⟩
  decide +kernel

end Discovery

end TypeAtlas
