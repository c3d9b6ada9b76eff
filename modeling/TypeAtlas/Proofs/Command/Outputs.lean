import TypeAtlas.Proofs.Command.Pipeline

/-!
# What a merge leaves behind

What keeps a merge from writing is found before the first file is written, so all files stay as
they were. Any other merge writes to its outputs and nowhere else, and what it writes is made
from one schema and one blob.
-/

namespace TypeAtlas

/-- Both trees have the same directories, and the same files except where the paths lead. -/
structure FileTree.KeptBut (paths : List FilePath) (tree after : FileTree) : Prop where
  files : ∀ place, (∀ path ∈ paths, tree.target path ≠ .ok place) → ∀ modified bytes,
    after.find place = .ok (.file modified bytes) ↔ tree.find place = .ok (.file modified bytes)
  directories : ∀ place, after.IsDirectory place ↔ tree.IsDirectory place

namespace MergeRequest

variable {request : MergeRequest} {tree after : FileTree} {texts : List String} {schema : Schema}
  {now : Nat}

/-- There are dumps below the input, all of them can be read as text, and they give the schema. -/
inductive Gathers (request : MergeRequest) (tree : FileTree) : Schema → Prop
  | intro {dumps : List FoundDump} {texts : List String} {meanings : List Schema}
      {schema : Schema} (scan : Discovery.scan tree request.input = .ok dumps)
      (found : dumps ≠ [])
      (read : List.Forall₂ (fun dump text =>
        tree.readPath (request.dumpPath dump) = .ok (Bytes.ofString text)) dumps texts)
      (means : List.Forall₂ Dump.Means texts meanings) (give : Dump.Give meanings schema) :
      Gathers request tree schema

inductive Hindered (request : MergeRequest) (tree : FileTree) : Prop
  | unscanned {error : FileError} (scan : Discovery.scan tree request.input = .error error)
  | nothingFound (scan : Discovery.scan tree request.input = .ok [])
  | unreadable {dumps : List FoundDump} {dump : FoundDump}
      (scan : Discovery.scan tree request.input = .ok dumps) (mem : dump ∈ dumps)
      (unread : ∀ text, tree.readPath (request.dumpPath dump) ≠ .ok (Bytes.ofString text))
  | unsupportedWidth {schema : Schema} (gathers : request.Gathers tree schema)
      (notFour : (request.width.or schema.arch).getD 8 ≠ 4)
      (notEight : (request.width.or schema.arch).getD 8 ≠ 8)
  | unencodable {schema : Schema} {error : BlobError} (gathers : request.Gathers tree schema)
      (refused : schema.encode ⟨(request.width.or schema.arch).getD 8, hostOrder,
        request.framed⟩ = .error error)

/-- The outputs hold a blob, its assembly source and the text of its schema. -/
structure Written (request : MergeRequest) (schema : Schema) (blob : Bytes) (after : FileTree) :
    Prop where
  output : after.readPath request.output = .ok blob
  assembly : ∀ path ∈ request.assembly,
    after.readPath path = .ok (Bytes.ofString (Assembly.render blob))
  json : ∀ path ∈ request.json, after.readPath path = .ok (Bytes.ofString schema.toJson.print)

/-! ## Gathering -/

theorem dumpText_ofString (path : FilePath) (text : String) :
    dumpText path (.ok (Bytes.ofString text)) = .ok text := by
  simp [dumpText]

theorem dumpsFound_of_ne_nil {dumps : List FoundDump} (h : dumps ≠ []) :
    request.dumpsFound (.ok dumps) = .ok dumps := by
  cases dumps with
  | nil => exact absurd rfl h
  | cons dump rest => rfl

theorem dumpTexts_of_found {dumps : List FoundDump}
    (hscan : Discovery.scan tree request.input = .ok dumps) (hfound : dumps ≠ []) :
    request.dumpTexts tree = dumps.mapM fun dump =>
      dumpText (request.dumpPath dump) (tree.readPath (request.dumpPath dump)) := by
  rw [dumpTexts, hscan, dumpsFound_of_ne_nil hfound]

/-- The schema is the one of the texts of the dumps. -/
theorem gathers_iff :
    request.Gathers tree schema ↔ ∃ texts, request.dumpTexts tree = .ok texts ∧
      schema = Schema.merged (texts.map Dump.parse) := by
  constructor
  · intro hgiven
    rcases hgiven with ⟨hscan, hfound, hread, hmeans, hgive⟩
    rw [Dump.forall₂_means_iff] at hmeans
    refine ⟨_, ?_, hmeans ▸ Dump.give_iff.mp hgive⟩
    rw [dumpTexts_of_found hscan hfound]
    apply Outcome.mapM_of_forall₂
    refine hread.imp fun dump text htext => ?_
    rw [htext, dumpText_ofString]
  · intro hgiven
    rcases hgiven with ⟨texts, htexts, rfl⟩
    unfold dumpTexts at htexts
    split at htexts
    · cases htexts
    · next dumps hfound =>
      have hscan := dumpsFound_eq_ok hfound
      have hsome : dumps ≠ [] := by
        rintro rfl
        rw [hscan] at hfound
        cases hfound
      exact ⟨hscan, hsome, (Outcome.forall₂_of_mapM htexts).imp fun _ _ => dumpText_eq_ok,
        Dump.forall₂_means_iff.mpr rfl, Dump.give_merged _⟩

/-- Without texts, the scan or one of the dumps is at fault. -/
theorem hindered_of_dumpTexts {failure : Failure} (h : request.dumpTexts tree = .error failure) :
    request.Hindered tree := by
  cases hscan : Discovery.scan tree request.input with
  | error error => exact .unscanned hscan
  | ok dumps =>
    by_cases hfound : dumps = []
    · exact .nothingFound (hfound ▸ hscan)
    · rw [dumpTexts_of_found hscan hfound] at h
      obtain ⟨dump, hmem, hdump⟩ := Outcome.exists_error_of_mapM h
      refine .unreadable hscan hmem fun text htext => ?_
      rw [htext, dumpText_ofString] at hdump
      cases hdump

/-! ## Planning -/

/-- Without a plan, the width or the schema is at fault. -/
theorem hindered_of_plan {failure : Failure} (htexts : request.dumpTexts tree = .ok texts)
    (h : request.plan texts = .error failure) : request.Hindered tree := by
  have hgathers := gathers_iff.mpr ⟨texts, htexts, rfl⟩
  unfold MergeRequest.plan at h
  simp only at h
  split at h
  · next hwidth => exact .unsupportedWidth hgathers hwidth.1 hwidth.2
  · split at h
    · next error hencode => exact .unencodable hgathers hencode
    · cases h

theorem Hindered.plan_ne_ok (h : request.Hindered tree)
    (htexts : request.dumpTexts tree = .ok texts) (plan : MergePlan) :
    request.plan texts ≠ .ok plan := by
  intro hplan
  cases h with
  | unscanned hscan => simp [dumpTexts, dumpsFound, hscan] at htexts
  | nothingFound hscan => simp [dumpTexts, dumpsFound, hscan] at htexts
  | unreadable hscan hmem hunread =>
    rw [dumpTexts_of_found hscan (List.ne_nil_of_mem hmem)] at htexts
    obtain ⟨text, -, htext⟩ := exists_of_forall₂ (Outcome.forall₂_of_mapM htexts) hmem
    exact hunread text (dumpText_eq_ok htext)
  | unsupportedWidth hgathers hfour height =>
    obtain ⟨others, hothers, hschema⟩ := gathers_iff.mp hgathers
    cases htexts.symm.trans hothers
    obtain ⟨blob, hwidth, -⟩ := files_of_plan hschema hplan
    exact hwidth.elim hfour height
  | unencodable hgathers hrefused =>
    obtain ⟨others, hothers, hschema⟩ := gathers_iff.mp hgathers
    cases htexts.symm.trans hothers
    obtain ⟨blob, -, hencode, -⟩ := files_of_plan hschema hplan
    cases hencode.symm.trans hrefused

/-! ## Running -/

theorem run_of_hindered (h : request.Hindered tree) (now : Nat) :
    ∃ failure, request.run tree now = (.failed failure, tree) := by
  unfold MergeRequest.run
  cases htexts : request.dumpTexts tree with
  | error failure => exact ⟨failure, rfl⟩
  | ok texts =>
    cases hplan : request.plan texts with
    | error failure => exact ⟨failure, by simp only [hplan]⟩
    | ok plan => exact absurd hplan (h.plan_ne_ok htexts plan)

theorem run_eq_failed {failure : Failure} (h : request.run tree now = (.failed failure, after)) :
    (request.Hindered tree ∧ after = tree) ∨
      ∃ path ∈ request.outputs, ∃ error, failure = .write path error := by
  unfold MergeRequest.run at h
  split at h
  · next htexts =>
    cases h
    exact .inl ⟨hindered_of_dumpTexts htexts, rfl⟩
  · next texts htexts =>
    split at h
    · next hplan =>
      cases h
      exact .inl ⟨hindered_of_plan htexts hplan, rfl⟩
    · next plan hplan =>
      obtain ⟨blob, -, -, hfiles⟩ := files_of_plan rfl hplan
      split at h
      · next hwrite =>
        cases h
        obtain ⟨file, hmem, error, rfl⟩ := exists_write_of_writeAll hwrite
        rw [hfiles] at hmem
        exact .inr ⟨file.path, paths_files _ blob ▸ List.mem_map_of_mem hmem, error, rfl⟩
      · cases h

theorem keptBut_run (request : MergeRequest) (tree : FileTree) (now : Nat) :
    FileTree.KeptBut request.outputs tree (request.run tree now).2 := by
  have hsame : FileTree.KeptBut request.outputs tree tree :=
    ⟨fun _ _ _ _ => .rfl, fun _ => .rfl⟩
  unfold MergeRequest.run
  split
  · exact hsame
  · next texts htexts =>
    split
    · exact hsame
    · next plan hplan =>
      obtain ⟨blob, -, -, hfiles⟩ := files_of_plan rfl hplan
      have hwritten : FileTree.KeptBut request.outputs tree (writeAll tree now plan.files).2 := by
        rw [← paths_files _ blob, ← hfiles]
        constructor
        · intro place hother modified bytes
          exact find_writeAll fun file hmem => hother file.path (List.mem_map_of_mem hmem)
        · exact isDirectory_writeAll_iff tree now plan.files
      split
      · next hwrite =>
        rw [hwrite] at hwritten
        exact hwritten
      · next hwrite =>
        rw [hwrite] at hwritten
        exact hwritten

theorem written_of_writeAll {blob : Bytes}
    (hwrite : writeAll tree now (request.files schema blob) = (none, after))
    (happart : request.outputs.Pairwise tree.Apart) : request.Written schema blob after := by
  rw [← paths_files schema blob] at happart
  have hread : ∀ file ∈ request.files schema blob, after.readPath file.path = .ok file.bytes :=
    fun _ => readPath_of_mem_writeAll hwrite happart
  constructor
  · exact hread ⟨request.output, blob⟩ (by simp [files])
  · intro path hpath
    exact hread ⟨path, Bytes.ofString (Assembly.render blob)⟩ (by
      simp [files, Option.mem_def.mp hpath])
  · intro path hpath
    exact hread ⟨path, Bytes.ofString schema.toJson.print⟩ (by
      simp [files, Option.mem_def.mp hpath])

end MergeRequest

/-- A merge that is kept from writing fails and leaves all files as they were; every other merge
that fails does so at one of its outputs. No merge touches a file that is not among its outputs,
nor a directory. When it succeeds, what is written is made from the schema that the dumps give
and from its blob, and is found in the outputs as long as these are different files. -/
theorem run_merge_writes {arguments : List String} {request : MergeRequest}
    (hrequest : Request.ofArguments arguments = .ok (.merge request)) (tree : FileTree)
    (now : Nat) :
    (request.Hindered tree → ∃ failure, run arguments tree now = (.failed failure, tree)) ∧
    (∀ failure after, run arguments tree now = (.failed failure, after) →
      (request.Hindered tree ∧ after = tree) ∨
        ∃ path ∈ request.outputs, ∃ error, failure = .write path error) ∧
    FileTree.KeptBut request.outputs tree (run arguments tree now).2 ∧
    ∀ stdout after, run arguments tree now = (.done stdout, after) →
      ∃ schema blob, request.Gathers tree schema ∧
        ((request.width.or schema.arch).getD 8 = 4 ∨ (request.width.or schema.arch).getD 8 = 8) ∧
        schema.encode ⟨(request.width.or schema.arch).getD 8, hostOrder, request.framed⟩ =
          .ok blob ∧
        (request.outputs.Pairwise tree.Apart → request.Written schema blob after) := by
  have hrun : run arguments tree now = request.run tree now := by
    rw [run, hrequest]
  rw [hrun]
  refine ⟨fun h => MergeRequest.run_of_hindered h now, fun _ _ => MergeRequest.run_eq_failed,
    MergeRequest.keptBut_run request tree now, ?_⟩
  intro stdout after hdone
  obtain ⟨texts, plan, htexts, hplan, hwrite⟩ := MergeRequest.run_eq_done hdone
  obtain ⟨blob, hwidth, hencode, hfiles⟩ := MergeRequest.files_of_plan rfl hplan
  rw [hfiles] at hwrite
  exact ⟨_, blob, MergeRequest.gathers_iff.mpr ⟨texts, htexts, rfl⟩, hwidth, hencode,
    MergeRequest.written_of_writeAll hwrite⟩

theorem MergeRequest.sample_apart :
    MergeRequest.sample.outputs.Pairwise MergeRequest.sampleTree.Apart := by
  have hblob : MergeRequest.sampleTree.target (.ofText "types.blob") =
      .ok [Bytes.ofString "types.blob"] := by decide +kernel
  have hassembly : MergeRequest.sampleTree.target (.ofText "types.S") =
      .ok [Bytes.ofString "types.S"] := by decide +kernel
  have hother : Bytes.ofString "types.S" ≠ Bytes.ofString "types.blob" := by decide +kernel
  simp [MergeRequest.sample, MergeRequest.outputs, FileTree.Apart, hblob, hassembly, hother]

/-- The sample is merged, and where there is nothing to merge nothing is written. -/
theorem run_merge_writes_sample :
    Request.ofArguments MergeRequest.sampleArguments = .ok (.merge MergeRequest.sample) ∧
    (MergeRequest.sample.Hindered .emptyDirectory ∧ ∃ failure,
      run MergeRequest.sampleArguments .emptyDirectory 3 = (.failed failure, .emptyDirectory)) ∧
    ∃ stdout after schema blob,
      run MergeRequest.sampleArguments MergeRequest.sampleTree 3 = (.done stdout, after) ∧
      FileTree.KeptBut MergeRequest.sample.outputs MergeRequest.sampleTree after ∧
      MergeRequest.sample.Gathers MergeRequest.sampleTree schema ∧
      MergeRequest.sample.outputs.Pairwise MergeRequest.sampleTree.Apart ∧
      MergeRequest.sample.Written schema blob after := by
  have hrequest : Request.ofArguments MergeRequest.sampleArguments =
      .ok (.merge MergeRequest.sample) := by decide +kernel
  have hhindered : MergeRequest.sample.Hindered .emptyDirectory := .unscanned rfl
  obtain ⟨hfailed, -⟩ := run_merge_writes hrequest .emptyDirectory 3
  obtain ⟨-, -, hkept, hdone⟩ := run_merge_writes hrequest MergeRequest.sampleTree 3
  have hending : (run MergeRequest.sampleArguments MergeRequest.sampleTree 3).1 =
      .done "[OK] Merged 2 dumps: 2 types, 125 bytes -> types.blob\n" := by
    rw [run, hrequest]
    simp only [MergeRequest.run]
    rw [MergeRequest.sample_dumpTexts]
    decide +kernel
  obtain ⟨schema, blob, hgathers, -, -, hwritten⟩ := hdone _ _ (Prod.ext hending rfl)
  exact ⟨hrequest, ⟨hhindered, hfailed hhindered⟩, _, _, schema, blob, Prod.ext hending rfl, hkept,
    hgathers, MergeRequest.sample_apart, hwritten MergeRequest.sample_apart⟩

end TypeAtlas
