import TypeAtlas.Command.Run
import TypeAtlas.Proofs.Files.Walking

/-!
# Writing files

A write puts a file at one place and leaves every directory a directory, so paths lead where
they led, and every other place keeps its file. What a run writes to a path is therefore read
back from it, as long as no later write is to the same place.
-/

namespace TypeAtlas

namespace FileTree

variable {tree after : FileTree} {place other : List Bytes} {now modified : Nat}
  {bytes contents : Bytes} {path : FilePath}

/-! ## A write -/

/-- A write gives an entry of a directory a new tree: the file itself, where no directory is,
or what the entry held with the file written below. -/
theorem write_eq_ok (h : tree.write now bytes place = .ok after) :
    ∃ name rest entries below, place = name :: rest ∧ tree = .directory entries ∧
      after = .directory (setEntry name below entries) ∧
      ((rest = [] ∧ below = .file now bytes ∧
          ∀ others, child? name entries ≠ some (.directory others)) ∨
        (rest ≠ [] ∧ ∃ old, child? name entries = some old ∧
          old.write now bytes rest = .ok below)) := by
  cases place with
  | nil => cases h
  | cons name rest =>
    cases tree with
    | file modified contents => cases h
    | directory entries =>
      unfold FileTree.write at h
      cases rest with
      | nil =>
        cases hchild : child? name entries with
        | none =>
          simp only [hchild, Except.ok.injEq] at h
          exact ⟨name, [], entries, _, rfl, rfl, h.symm, .inl ⟨rfl, rfl, by simp [hchild]⟩⟩
        | some old =>
          cases old with
          | file modified contents =>
            simp only [hchild, Except.ok.injEq] at h
            exact ⟨name, [], entries, _, rfl, rfl, h.symm, .inl ⟨rfl, rfl, by simp [hchild]⟩⟩
          | directory others => simp [hchild] at h
      | cons next more =>
        cases hchild : child? name entries with
        | none => simp [hchild] at h
        | some old =>
          simp only [hchild] at h
          cases hbelow : old.write now bytes (next :: more) with
          | error error => simp [hbelow, Except.map] at h
          | ok below =>
            simp only [hbelow, Except.map, Except.ok.injEq] at h
            exact ⟨name, _, entries, below, rfl, rfl, h.symm,
              .inr ⟨List.cons_ne_nil next more, old, hchild, hbelow⟩⟩

theorem find_write (h : tree.write now bytes place = .ok after) :
    after.find place = .ok (.file now bytes) := by
  induction place generalizing tree after with
  | nil => cases h
  | cons first more ih =>
    obtain ⟨name, rest, entries, below, heq, rfl, rfl, hbelow⟩ := write_eq_ok h
    cases heq
    simp only [find, child?_setEntry, if_true]
    rcases hbelow with ⟨rfl, rfl, -⟩ | ⟨-, old, -, hold⟩
    · rfl
    · exact ih hold

theorem isDirectory_write_iff (h : tree.write now bytes place = .ok after)
    (other : List Bytes) : after.IsDirectory other ↔ tree.IsDirectory other := by
  induction place generalizing tree after other with
  | nil => cases h
  | cons first more ih =>
    obtain ⟨name, rest, entries, below, heq, rfl, rfl, hbelow⟩ := write_eq_ok h
    cases heq
    cases other with
    | nil => simp [IsDirectory, find]
    | cons otherName otherRest =>
      simp only [IsDirectory, find, child?_setEntry]
      by_cases hname : first = otherName
      · subst hname
        rw [if_pos rfl]
        rcases hbelow with ⟨rfl, rfl, hnone⟩ | ⟨-, old, hchild, hold⟩
        · cases hchild : child? first entries with
          | none => cases otherRest <;> simp [find]
          | some old =>
            cases old with
            | file modified contents => cases otherRest <;> simp [find]
            | directory others => exact absurd hchild (hnone others)
        · simp only [hchild]
          exact ih hold otherRest
      · rw [if_neg hname]

theorem find_write_of_ne (h : tree.write now bytes place = .ok after) (hne : other ≠ place) :
    after.find other = .ok (.file modified contents) ↔
      tree.find other = .ok (.file modified contents) := by
  induction place generalizing tree after other with
  | nil => cases h
  | cons first more ih =>
    obtain ⟨name, rest, entries, below, heq, rfl, rfl, hbelow⟩ := write_eq_ok h
    cases heq
    cases other with
    | nil => simp [find]
    | cons otherName otherRest =>
      simp only [find, child?_setEntry]
      by_cases hname : first = otherName
      · subst hname
        have hrest : otherRest ≠ more := fun heq => hne (heq ▸ rfl)
        rw [if_pos rfl]
        rcases hbelow with ⟨rfl, rfl, hnone⟩ | ⟨-, old, hchild, hold⟩
        · -- Below a file nothing is found, neither before nor after.
          obtain ⟨deeper, deepest, rfl⟩ := List.exists_cons_of_ne_nil hrest
          cases hchild : child? first entries with
          | none => simp [find]
          | some old =>
            cases old with
            | file modified contents => simp [find]
            | directory others => exact absurd hchild (hnone others)
        · simp only [hchild]
          exact ih hold hrest
      · rw [if_neg hname]

/-! ## Paths to files -/

theorem target_eq_ok_iff :
    tree.target path = .ok place ↔
      path.refusal? = none ∧ path.meansDirectory = false ∧
      ∃ name above, path.steps.getLast? = some (.down name) ∧
        tree.walk [] (path.steps.dropLast ++ [.stay]) = .ok above ∧
        name.length ≤ FilePath.nameLimit ∧ place = above ++ [name] := by
  unfold target
  cases hrefusal : path.refusal? with
  | some error => simp
  | none =>
    rcases hlast : path.steps.getLast? with _ | step
    · cases hwalk : tree.walk [] path.steps <;> simp
    · cases step with
      | stay => cases hwalk : tree.walk [] path.steps <;> simp
      | up => cases hwalk : tree.walk [] path.steps <;> simp
      | down name =>
        cases hwalk : tree.walk [] (path.steps.dropLast ++ [.stay]) with
        | error error => simp
        | ok above =>
          cases hmeans : path.meansDirectory with
          | true => simp
          | false =>
            by_cases hlong : FilePath.nameLimit < name.length
            · simp [hlong, Nat.not_le.mpr hlong]
            · simp [hlong, Nat.not_lt.mp hlong, eq_comm (a := place)]

theorem target_congr (hsame : ∀ place, after.IsDirectory place ↔ tree.IsDirectory place) :
    after.target path = .ok place ↔ tree.target path = .ok place := by
  have hwalk : ∀ {steps : List PathStep} {above : List Bytes},
      after.walk [] (steps ++ [.stay]) = .ok above ↔ tree.walk [] (steps ++ [.stay]) = .ok above :=
    ⟨walk_of_isDirectory fun place => (hsame place).mp,
      walk_of_isDirectory fun place => (hsame place).mpr⟩
  simp only [target_eq_ok_iff, hwalk]

/-- The file at the place that a path targets is the one that the path means. -/
theorem readPath_of_target (htarget : tree.target path = .ok place)
    (hfile : tree.find place = .ok (.file modified bytes)) : tree.readPath path = .ok bytes := by
  obtain ⟨hrefusal, hmeans, name, above, hlast, hwalk, hlimit, rfl⟩ := target_eq_ok_iff.mp htarget
  obtain ⟨habove, entries, hentries⟩ := walk_concat_stay_iff.mp hwalk
  have hsteps : path.steps = path.steps.dropLast ++ [.down name] := by
    obtain ⟨front, hfront⟩ := List.getLast?_eq_some_iff.mp hlast
    rw [hfront, List.dropLast_concat]
  have hfound := hfile
  rw [find_append_of_ok hentries] at hfound
  have hlocate : tree.locate path = .ok (above ++ [name]) := by
    simp only [locate, hrefusal, hmeans, Bool.false_eq_true, if_false, List.append_nil]
    rw [hsteps, walk_append_eq_ok_iff]
    refine ⟨above, habove, ?_⟩
    rw [walk_singleton, take_eq_ok_iff]
    exact ⟨entries, hentries, hlimit, isSome_child? hfound, rfl⟩
  simp only [readPath, findPath, hlocate, hfile]

theorem writePath_eq_ok (h : tree.writePath now path bytes = .ok after) :
    ∃ place, tree.target path = .ok place ∧ tree.write now bytes place = .ok after := by
  unfold writePath at h
  split at h
  · cases h
  · next place htarget => exact ⟨place, htarget, h⟩

def Apart (tree : FileTree) (one other : FilePath) : Prop :=
  ∀ place, tree.target one = .ok place → tree.target other ≠ .ok place

theorem apart_congr {one other : FilePath}
    (hsame : ∀ place, after.IsDirectory place ↔ tree.IsDirectory place) :
    after.Apart one other ↔ tree.Apart one other := by
  simp only [Apart, ne_eq, target_congr hsame]

end FileTree

/-! ## Writing one file after the other -/

variable {tree after : FileTree} {now modified : Nat} {place : List Bytes}
  {bytes contents : Bytes} {path : FilePath} {files : List PlannedFile}

theorem isDirectory_writeAll_iff (tree : FileTree) (now : Nat) (files : List PlannedFile)
    (place : List Bytes) :
    (writeAll tree now files).2.IsDirectory place ↔ tree.IsDirectory place := by
  induction files generalizing tree with
  | nil => rfl
  | cons file rest ih =>
    unfold writeAll
    split
    · rfl
    · next after hwrite =>
      obtain ⟨target, -, hwrite⟩ := FileTree.writePath_eq_ok hwrite
      rw [ih after, FileTree.isDirectory_write_iff hwrite]

/-- A file that none of the paths targets stays as it is, whether or not all is written. -/
theorem find_writeAll (hother : ∀ file ∈ files, tree.target file.path ≠ .ok place) :
    (writeAll tree now files).2.find place = .ok (.file modified contents) ↔
      tree.find place = .ok (.file modified contents) := by
  induction files generalizing tree with
  | nil => rfl
  | cons file rest ih =>
    obtain ⟨hfile, hrest⟩ := List.forall_mem_cons.mp hother
    unfold writeAll
    split
    · rfl
    · next after hwrite =>
      obtain ⟨target, htarget, hwrite⟩ := FileTree.writePath_eq_ok hwrite
      have hne : place ≠ target := fun heq => hfile (heq ▸ htarget)
      have hsame := FileTree.isDirectory_write_iff hwrite
      rw [ih, FileTree.find_write_of_ne hwrite hne]
      intro later hlater htarget
      exact hrest later hlater ((FileTree.target_congr hsame).mp htarget)

/-- What is written first is read back after all is written. -/
theorem readPath_writeAll {file : PlannedFile}
    (hwrite : writeAll tree now (file :: files) = (none, after))
    (hother : ∀ later ∈ files, tree.target later.path ≠ tree.target file.path) :
    after.readPath file.path = .ok file.bytes := by
  unfold writeAll at hwrite
  split at hwrite
  · cases hwrite
  · next first hfirst =>
    obtain ⟨place, htarget, hput⟩ := FileTree.writePath_eq_ok hfirst
    have hsame := FileTree.isDirectory_write_iff hput
    have hafter : after = (writeAll first now files).2 := by rw [hwrite]
    have hkeeps : ∀ later ∈ files, first.target later.path ≠ .ok place := by
      intro later hmem hlater
      exact hother later hmem (((FileTree.target_congr hsame).mp hlater).trans htarget.symm)
    have hfile : after.find place = .ok (.file now file.bytes) := by
      rw [hafter, find_writeAll hkeeps]
      exact FileTree.find_write hput
    have hdirectories : ∀ place, after.IsDirectory place ↔ tree.IsDirectory place := by
      intro place
      rw [hafter, isDirectory_writeAll_iff, hsame]
    exact FileTree.readPath_of_target ((FileTree.target_congr hdirectories).mpr htarget) hfile

/-- Of files that go to different places, each is read back after all are written. -/
theorem readPath_of_mem_writeAll {file : PlannedFile}
    (hwrite : writeAll tree now files = (none, after))
    (happart : (files.map (·.path)).Pairwise tree.Apart) (hmem : file ∈ files) :
    after.readPath file.path = .ok file.bytes := by
  induction files generalizing tree with
  | nil => cases hmem
  | cons head rest ih =>
    rw [List.map_cons, List.pairwise_cons] at happart
    obtain ⟨hhead, hrest⟩ := happart
    have hall := hwrite
    unfold writeAll at hwrite
    split at hwrite
    · cases hwrite
    · next first hfirst =>
      obtain ⟨place, htarget, hput⟩ := FileTree.writePath_eq_ok hfirst
      rcases List.mem_cons.mp hmem with rfl | hmem
      · apply readPath_writeAll hall
        intro later hlater hsame
        exact hhead later.path (List.mem_map_of_mem hlater) place htarget (hsame.trans htarget)
      · have hsame := FileTree.isDirectory_write_iff hput
        exact ih hwrite (hrest.imp (FileTree.apart_congr hsame).mpr) hmem

/-- Nothing but a write keeps files from being written. -/
theorem exists_write_of_writeAll {failure : Failure}
    (h : writeAll tree now files = (some failure, after)) :
    ∃ file ∈ files, ∃ error, failure = .write file.path error := by
  induction files generalizing tree with
  | nil => cases h
  | cons head rest ih =>
    unfold writeAll at h
    split at h
    · next error herror =>
      cases h
      exact ⟨head, List.mem_cons_self, error, rfl⟩
    · obtain ⟨file, hmem, hfailure⟩ := ih h
      exact ⟨file, List.mem_cons_of_mem head hmem, hfailure⟩

end TypeAtlas
