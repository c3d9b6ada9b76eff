import TypeAtlas.Files.Tree

/-!
# Where paths lead

Steps down lead to the place that their names spell, and names that are put behind a path
are walked as such steps. Which places can be walked through depends on the directories of a
tree alone, so trees with the same directories are walked in the same way. A directory below is
read by the path with its names behind it exactly if these fit.
-/

namespace TypeAtlas

namespace FilePath

/-! ## Names behind a path -/

/-- A name that an entry of a directory can have: one step down, and no other step. -/
structure IsName (name : Bytes) : Prop where
  nonempty : name ≠ []
  no_slash : slash ∉ name
  no_dot : name ≠ [0x2E]
  no_dots : name ≠ [0x2E, 0x2E]

instance (name : Bytes) : Decidable (IsName name) :=
  decidable_of_iff (name ≠ [] ∧ slash ∉ name ∧ name ≠ [0x2E] ∧ name ≠ [0x2E, 0x2E])
    ⟨fun h => ⟨h.1, h.2.1, h.2.2.1, h.2.2.2⟩, fun h => ⟨h.1, h.2, h.3, h.4⟩⟩

theorem cut_ne_nil (bytes : Bytes) : cut bytes ≠ [] := by
  cases bytes with
  | nil => simp [cut]
  | cons byte rest =>
    unfold cut
    repeat' split
    all_goals simp

theorem cut_append (front back : Bytes) :
    cut (front ++ slash :: back) = cut front ++ cut back := by
  induction front with
  | nil => simp [cut]
  | cons byte rest ih =>
    by_cases hslash : byte = slash
    · simp [cut, hslash, ih]
    · rw [List.cons_append, cut, cut, if_neg hslash, if_neg hslash, ih]
      cases hcut : cut rest with
      | nil => exact absurd hcut (cut_ne_nil rest)
      | cons part more => rfl

theorem cut_of_no_slash {bytes : Bytes} (h : slash ∉ bytes) : cut bytes = [bytes] := by
  induction bytes with
  | nil => rfl
  | cons byte rest ih =>
    rw [List.mem_cons, not_or] at h
    rw [cut, if_neg (Ne.symm h.1), ih h.2]

theorem steps_slash (front back : Bytes) :
    steps ⟨front ++ slash :: back⟩ = steps ⟨front⟩ ++ steps ⟨back⟩ := by
  simp [steps, cut_append]

variable {name : Bytes} {names : List Bytes} {path : FilePath}

theorem IsName.steps (h : IsName name) : FilePath.steps ⟨name⟩ = [.down name] := by
  simp [FilePath.steps, cut_of_no_slash h.no_slash, h.nonempty, PathStep.ofPart, h.no_dot,
    h.no_dots]

theorem bytes_of_meansDirectory (h : path.meansDirectory = true) :
    ∃ front, path.bytes = front ++ [slash] :=
  List.getLast?_eq_some_iff.mp (eq_of_beq h)

theorem IsName.steps_join (h : IsName name) (path : FilePath) :
    (path.join name).steps = path.steps ++ [.down name] := by
  obtain ⟨bytes⟩ := path
  unfold join
  split
  · next hends =>
    rw [Bool.or_eq_true] at hends
    rcases hends with hempty | hslash
    · have hbytes : bytes = [] := by simpa using hempty
      rw [hbytes, List.nil_append, h.steps]
      rfl
    · -- A slash that is there already stands between the path and the name.
      obtain ⟨front, hfront⟩ := bytes_of_meansDirectory hslash
      simp only at hfront
      rw [hfront, List.append_assoc, List.singleton_append, steps_slash, steps_slash, h.steps]
      simp [FilePath.steps, cut]
  · rw [steps_slash, h.steps]

theorem steps_foldl_join (h : ∀ name ∈ names, IsName name) (path : FilePath) :
    (names.foldl join path).steps = path.steps ++ names.map .down := by
  induction names generalizing path with
  | nil => simp
  | cons name rest ih =>
    obtain ⟨hname, hrest⟩ := List.forall_mem_cons.mp h
    rw [List.foldl_cons, ih hrest, hname.steps_join, List.append_assoc]
    rfl

theorem IsName.exists_join (h : IsName name) (path : FilePath) :
    ∃ front last, (path.join name).bytes = front ++ [last] ∧ last ≠ slash := by
  have hbytes : ∃ front, (path.join name).bytes = front ++ name := by
    unfold join
    split
    · exact ⟨path.bytes, rfl⟩
    · exact ⟨path.bytes ++ [slash], by simp⟩
  obtain ⟨front, hfront⟩ := hbytes
  refine ⟨front ++ name.dropLast, name.getLast h.nonempty, ?_, ?_⟩
  · rw [hfront, List.append_assoc, List.dropLast_concat_getLast]
  · intro hlast
    exact h.no_slash (hlast ▸ List.getLast_mem h.nonempty)

theorem IsName.meansDirectory_join (h : IsName name) (path : FilePath) :
    (path.join name).meansDirectory = false := by
  obtain ⟨front, last, hbytes, hlast⟩ := h.exists_join path
  simp [meansDirectory, hbytes, hlast]

theorem IsName.refusal?_join (h : IsName name) (path : FilePath) :
    (path.join name).refusal? =
      if lengthLimit ≤ (path.join name).bytes.length then some .nameTooLong else none := by
  obtain ⟨front, last, hbytes, -⟩ := h.exists_join path
  have hsome : (path.join name).bytes.isEmpty = false := by
    rw [hbytes]
    simp
  rw [refusal?, hsome]
  rfl

/-- The path with names behind it is short enough to be asked for, and so is each name. -/
structure Fits (path : FilePath) (names : List Bytes) : Prop where
  path : (names.foldl join path).bytes.length < 4096
  names : ∀ name ∈ names, name.length ≤ 255

end FilePath

namespace FileTree

variable {tree after : FileTree} {place next found : List Bytes}

/-! ## What lies at a place -/

theorem find_append (tree : FileTree) (place below : List Bytes) :
    tree.find (place ++ below) = (tree.find place).bind fun found => found.find below := by
  induction place generalizing tree with
  | nil => rfl
  | cons name rest ih =>
    cases tree with
    | file modified bytes => rfl
    | directory entries =>
      simp only [List.cons_append, find]
      cases child? name entries with
      | none => rfl
      | some sub => exact ih sub

theorem find_append_of_ok {sub : FileTree} (h : tree.find place = .ok sub) (below : List Bytes) :
    tree.find (place ++ below) = sub.find below := by
  rw [find_append, h]
  rfl

theorem exists_child_of_find {sub : FileTree} {name : Bytes} {rest : List Bytes}
    (h : tree.find (place ++ name :: rest) = .ok sub) :
    ∃ entries below, tree.find place = .ok (.directory entries) ∧ child? name entries = some below ∧
      below.find rest = .ok sub := by
  rw [find_append] at h
  rcases hplace : tree.find place with error | ⟨modified, bytes⟩ | entries
  · rw [hplace] at h
    cases h
  · rw [hplace] at h
    cases h
  · simp only [hplace, Except.bind, find] at h
    split at h
    · cases h
    · next below hchild => exact ⟨entries, below, rfl, hchild, h⟩

def IsDirectory (tree : FileTree) (place : List Bytes) : Prop :=
  ∃ entries, tree.find place = .ok (.directory entries)

/-! ## Steps -/

theorem take_eq_ok_iff {step : PathStep} :
    tree.take place step = .ok next ↔
      ∃ entries, tree.find place = .ok (.directory entries) ∧
        match step with
        | .stay => next = place
        | .up => next = place.dropLast
        | .down name => name.length ≤ FilePath.nameLimit ∧
            (child? name entries).isSome ∧ next = place ++ [name] := by
  unfold take
  cases hfind : tree.find place with
  | error error => simp
  | ok found =>
    cases found with
    | file modified bytes => simp
    | directory entries =>
      simp only [Except.ok.injEq, directory.injEq, exists_eq_left']
      cases step with
      | stay => simp only [Except.ok.injEq, eq_comm]
      | up => simp only [Except.ok.injEq, eq_comm]
      | down name =>
        by_cases hlong : FilePath.nameLimit < name.length
        · simp [hlong, Nat.not_le.mpr hlong]
        · simp only [if_neg hlong]
          cases child? name entries with
          | none => simp
          | some below => simp [Nat.not_lt.mp hlong, eq_comm (a := next)]

theorem walk_append_eq_ok_iff {front back : List PathStep} :
    tree.walk place (front ++ back) = .ok found ↔
      ∃ next, tree.walk place front = .ok next ∧ tree.walk next back = .ok found := by
  rw [walk_append]
  cases tree.walk place front <;> simp

theorem walk_singleton (tree : FileTree) (place : List Bytes) (step : PathStep) :
    tree.walk place [step] = tree.take place step := by
  simp only [walk]
  cases tree.take place step <;> rfl

/-- A last step that stays asks for a directory. -/
theorem walk_concat_stay_iff {steps : List PathStep} :
    tree.walk place (steps ++ [.stay]) = .ok found ↔
      tree.walk place steps = .ok found ∧ tree.IsDirectory found := by
  rw [walk_append_eq_ok_iff]
  constructor
  · intro hgiven
    rcases hgiven with ⟨next, hwalk, hstay⟩
    rw [walk_singleton, take_eq_ok_iff] at hstay
    obtain ⟨entries, hfind, rfl⟩ := hstay
    exact ⟨hwalk, entries, hfind⟩
  · intro hgiven
    rcases hgiven with ⟨hwalk, entries, hfind⟩
    refine ⟨found, hwalk, ?_⟩
    rw [walk_singleton, take_eq_ok_iff]
    exact ⟨entries, hfind, rfl⟩

theorem walk_map_down {names : List Bytes}
    (h : tree.walk place (names.map .down) = .ok found) : found = place ++ names := by
  induction names generalizing place with
  | nil =>
    cases h
    exact (List.append_nil _).symm
  | cons name rest ih =>
    rw [List.map_cons, walk] at h
    split at h
    · cases h
    · next next htake =>
      obtain ⟨entries, -, -, -, rfl⟩ := take_eq_ok_iff.mp htake
      rw [ih h, List.append_assoc]
      rfl

/-! ## Trees with the same directories -/

theorem isDirectory_of_walk {steps : List PathStep}
    (h : tree.walk place (steps ++ [.stay]) = .ok found) : tree.IsDirectory place := by
  cases steps with
  | nil =>
    obtain ⟨hfound, hdirectory⟩ := walk_concat_stay_iff.mp h
    cases hfound
    exact hdirectory
  | cons step rest =>
    rw [List.cons_append, walk] at h
    split at h
    · cases h
    · next next htake =>
      obtain ⟨entries, hfind, -⟩ := take_eq_ok_iff.mp htake
      exact ⟨entries, hfind⟩

theorem isSome_child? {entries : List (Bytes × FileTree)} {name : Bytes} {sub : FileTree}
    (h : (directory entries).find [name] = .ok sub) : (child? name entries).isSome := by
  simp only [find] at h
  cases hchild : child? name entries with
  | none => simp [hchild] at h
  | some below => rfl

theorem walk_of_isDirectory (hsame : ∀ place, tree.IsDirectory place → after.IsDirectory place)
    {steps : List PathStep} (h : tree.walk place (steps ++ [.stay]) = .ok found) :
    after.walk place (steps ++ [.stay]) = .ok found := by
  induction steps generalizing place with
  | nil =>
    obtain ⟨hfound, hdirectory⟩ := walk_concat_stay_iff.mp h
    exact walk_concat_stay_iff.mpr ⟨hfound, hsame _ hdirectory⟩
  | cons step rest ih =>
    obtain ⟨entries, hafter⟩ := hsame place (isDirectory_of_walk h)
    rw [List.cons_append, walk] at h
    split at h
    · cases h
    · next next htake =>
      obtain ⟨_, -, hstep⟩ := take_eq_ok_iff.mp htake
      have htakeAfter : after.take place step = .ok next := by
        refine take_eq_ok_iff.mpr ⟨entries, hafter, ?_⟩
        cases step with
        | stay => exact hstep
        | up => exact hstep
        | down name =>
          obtain ⟨hlimit, -, rfl⟩ := hstep
          -- The next place is left in its turn, so it is a directory of both trees.
          obtain ⟨below, hbelow⟩ := hsame _ (isDirectory_of_walk h)
          rw [find_append_of_ok hafter] at hbelow
          exact ⟨hlimit, isSome_child? hbelow, rfl⟩
      rw [List.cons_append, walk, htakeAfter]
      exact ih h

/-! ## Paths -/

theorem walk_of_locate {path : FilePath} (h : tree.locate path = .ok place) :
    tree.walk [] path.steps = .ok place := by
  unfold locate at h
  split at h
  · cases h
  · split at h
    · exact (walk_concat_stay_iff.mp h).1
    · rwa [List.append_nil] at h

/-- Names that are put behind a path lead down from where the path leads. -/
theorem locate_foldl_join {path : FilePath} {names : List Bytes}
    (hnames : ∀ name ∈ names, FilePath.IsName name) (hpath : tree.locate path = .ok place)
    (h : tree.locate (names.foldl FilePath.join path) = .ok found) : found = place ++ names := by
  have hwalk := walk_of_locate h
  rw [FilePath.steps_foldl_join hnames, walk_append_eq_ok_iff] at hwalk
  obtain ⟨next, hnext, hdown⟩ := hwalk
  rw [walk_of_locate hpath] at hnext
  cases hnext
  exact walk_map_down hdown

/-- Steps down to what is there lead to it, unless a name is too long to be asked for. -/
theorem walk_map_down_of_find {names : List Bytes} {sub : FileTree}
    (h : tree.find (place ++ names) = .ok sub) :
    (∀ name ∈ names, name.length ≤ 255) ∧
        tree.walk place (names.map .down) = .ok (place ++ names) ∨
      ¬ (∀ name ∈ names, name.length ≤ 255) ∧
        tree.walk place (names.map .down) = .error .nameTooLong := by
  induction names generalizing place with
  | nil => simp [walk]
  | cons name rest ih =>
    obtain ⟨entries, below, hentries, hchild, -⟩ := exists_child_of_find h
    have hnext : tree.find ((place ++ [name]) ++ rest) = .ok sub := by
      rw [List.append_assoc]
      exact h
    simp only [List.map_cons, walk, take, hentries, hchild, FilePath.nameLimit,
      List.forall_mem_cons]
    by_cases hlong : 255 < name.length
    · simp [hlong, Nat.not_le.mpr hlong]
    · rcases ih hnext with ⟨hshort, hwalk⟩ | ⟨hlonger, hwalk⟩
      · exact .inl ⟨⟨Nat.not_lt.mp hlong, hshort⟩, by simp [hlong, hwalk]⟩
      · exact .inr ⟨fun hall => hlonger hall.2, by simp [hlong, hwalk]⟩

theorem length_lt_of_locate {path : FilePath} (h : tree.locate path = .ok place) :
    path.bytes.length < FilePath.lengthLimit := by
  unfold locate at h
  split at h
  · cases h
  · next hrefusal =>
    unfold FilePath.refusal? at hrefusal
    split at hrefusal
    · cases hrefusal
    · split at hrefusal
      · cases hrefusal
      · next hshort => exact Nat.not_le.mp hshort

theorem locate_join {name : Bytes} (hname : FilePath.IsName name) (path : FilePath) :
    tree.locate (path.join name) =
      if FilePath.lengthLimit ≤ (path.join name).bytes.length then .error .nameTooLong
      else tree.walk [] (path.join name).steps := by
  rw [locate, hname.refusal?_join, hname.meansDirectory_join]
  by_cases hlong : FilePath.lengthLimit ≤ (path.join name).bytes.length
  · simp [hlong]
  · simp [hlong]

/-- A directory below the one that a path means is read by the path with its names behind it,
as long as these fit. -/
theorem readDirectory_foldl_join {path : FilePath} {names : List Bytes}
    {entries : List (Bytes × FileTree)} (hnames : ∀ name ∈ names, FilePath.IsName name)
    (hlocate : tree.locate path = .ok place)
    (h : tree.find (place ++ names) = .ok (.directory entries)) :
    path.Fits names ∧ tree.readDirectory (names.foldl FilePath.join path) = .ok entries ∨
      ¬ path.Fits names ∧
        tree.readDirectory (names.foldl FilePath.join path) = .error .nameTooLong := by
  rcases List.eq_nil_or_concat names with rfl | ⟨front, name, rfl⟩
  · rw [List.append_nil] at h
    refine .inl ⟨⟨length_lt_of_locate hlocate, by simp⟩, ?_⟩
    simp only [List.foldl_nil, readDirectory, findPath, hlocate, h]
  · simp only [List.concat_eq_append] at hnames h ⊢
    have hsteps := FilePath.steps_foldl_join hnames path
    have hjoined : (front ++ [name]).foldl FilePath.join path =
        (front.foldl FilePath.join path).join name := by
      rw [List.foldl_append]
      rfl
    have hname : FilePath.IsName name := hnames name (by simp)
    have hwalk : tree.walk [] ((front.foldl FilePath.join path).join name).steps =
        tree.walk place ((front ++ [name]).map .down) := by
      rw [← hjoined, hsteps, walk_append, walk_of_locate hlocate]
    rw [hjoined, readDirectory, findPath, locate_join hname, hwalk]
    by_cases hlong : FilePath.lengthLimit ≤
        ((front.foldl FilePath.join path).join name).bytes.length
    · refine .inr ⟨fun hfits => ?_, by rw [if_pos hlong]⟩
      have hshort := hfits.path
      rw [hjoined] at hshort
      exact Nat.not_lt.mpr hlong hshort
    · rw [if_neg hlong]
      rcases walk_map_down_of_find h with ⟨hshort, hfound⟩ | ⟨hlonger, hfound⟩
      · refine .inl ⟨⟨hjoined ▸ Nat.not_le.mp hlong, hshort⟩, ?_⟩
        simp only [hfound, h]
      · refine .inr ⟨fun hfits => hlonger hfits.names, ?_⟩
        simp only [hfound]

theorem readPath_eq_ok {path : FilePath} {bytes : Bytes} (h : tree.readPath path = .ok bytes) :
    ∃ place modified, tree.locate path = .ok place ∧
      tree.find place = .ok (.file modified bytes) := by
  unfold readPath findPath at h
  cases hlocate : tree.locate path with
  | error error => simp [hlocate] at h
  | ok place =>
    simp only [hlocate] at h
    split at h
    · cases h
    · cases h
    · next modified contents hfile =>
      cases h
      exact ⟨place, modified, rfl, hfile⟩

end FileTree

end TypeAtlas
