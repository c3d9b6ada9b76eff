import TypeAtlas.Proofs.Dump.Meaning
import TypeAtlas.Proofs.Files.Discovery
import TypeAtlas.Proofs.Files.Writing
import TypeAtlas.Proofs.Registry.Ranking

/-!
# From dumps to a registry

A merge reads the dumps below a directory in their order, and what it writes loads as a
registry of the types that the dumps give: each name with the rank of its first appearance,
and with the last definition in the last dump that defines it. The order of the dumps is that
of their times and paths, so the registry does not depend on how directories are enumerated.
-/

namespace TypeAtlas

/-! ## What dumps give -/

/-- The schema that dumps give whose meanings are put together in order. Its names stand in the
order in which they first appear; each has its last definition in the last dump that defines it,
and the pointer width is the last one that a dump gives. -/
structure Dump.Give (meanings : List Schema) (schema : Schema) : Prop where
  names : schema.types.map (·.name) =
    ((meanings.flatMap (·.types)).map (·.name)).eraseDups
  last : ∀ ty ∈ schema.types, ∃ before meaning after, meanings = before ++ meaning :: after ∧
    meaning.get? ty.name = some ty ∧ ∀ later ∈ after, later.get? ty.name = none
  arch : schema.arch = (meanings.filterMap (·.arch)).getLast?

theorem Dump.give_merged (meanings : List Schema) : Give meanings (Schema.merged meanings) := by
  have htable := Schema.merged_tabulates meanings
  refine ⟨htable.keys, ?_, Schema.arch_merged meanings⟩
  intro ty hmem
  exact Keyed.last?_flatMap_eq_some_iff.mp (htable.last?_of_mem hmem)

theorem Dump.Give.tabulates {meanings : List Schema} {schema : Schema}
    (h : Give meanings schema) :
    Keyed.Tabulates TypeDef.name (meanings.flatMap (·.types)) schema.types where
  keys := h.names
  last name := by
    by_cases hname : name ∈ schema.types.map (·.name)
    · obtain ⟨ty, hmem, rfl⟩ := List.mem_map.mp hname
      have hnodup : (schema.types.map (·.name)).Nodup := by
        rw [h.names]
        exact Keyed.nodup_eraseDups _
      rw [Keyed.find?_key_of_mem hnodup hmem]
      exact (Keyed.last?_flatMap_eq_some_iff.mpr (h.last ty hmem)).symm
    · have hnone : schema.types.find? (fun ty => ty.name = name) = none := by
        simpa using hname
      rw [h.names, List.mem_eraseDups] at hname
      rw [hnone, Keyed.last?_eq_none_iff.mpr hname]

/-- Dumps give one schema, the one that a merge of their meanings comes to. -/
theorem Dump.give_iff {meanings : List Schema} {schema : Schema} :
    Give meanings schema ↔ schema = Schema.merged meanings := by
  have hmerged := give_merged meanings
  constructor
  · intro h
    generalize Schema.merged meanings = merged at hmerged
    obtain ⟨arch, types⟩ := schema
    obtain ⟨mergedArch, mergedTypes⟩ := merged
    have htypes : types = mergedTypes := h.tabulates.unique hmerged.tabulates
    have harch : arch = mergedArch := h.arch.trans hmerged.arch.symm
    rw [htypes, harch]
  · intro h
    rw [h]
    exact hmerged

/-! ## The texts of the dumps -/

def Discovery.Reads (directory : FileTree) (found : FoundDump) (text : String) : Prop :=
  directory.find found.path = .ok (.file found.modified (Bytes.ofString text))

theorem Discovery.rightUnique_reads (directory : FileTree) :
    Relator.RightUnique (Reads directory) := by
  intro found text other htext hother
  have hsame := htext.symm.trans hother
  rw [Except.ok.injEq, FileTree.file.injEq] at hsame
  exact Bytes.ofString_injective hsame.2

namespace MergeRequest

variable {request : MergeRequest} {tree after : FileTree} {texts : List String} {now : Nat}

theorem dumpText_eq_ok {path : FilePath} {bytes : Except FileError Bytes} {text : String}
    (h : dumpText path bytes = .ok text) : bytes = .ok (Bytes.ofString text) := by
  unfold dumpText at h
  split at h
  · cases h
  · split at h
    · next htext =>
      cases h
      rw [Bytes.ofString_toString? htext]
    · cases h

theorem dumpsFound_eq_ok {found : Except FileError (List FoundDump)} {dumps : List FoundDump}
    (h : request.dumpsFound found = .ok dumps) : found = .ok dumps := by
  unfold dumpsFound at h
  split at h
  · cases h
  · cases h
  · cases h
    rfl

theorem dumpTexts_eq_ok (htree : tree.WellFormed) (h : request.dumpTexts tree = .ok texts) :
    ∃ place directory dumps, tree.locate request.input = .ok place ∧
      tree.find place = .ok directory ∧ Discovery.Lists directory dumps ∧
      List.Forall₂ (Discovery.Reads directory) dumps texts := by
  unfold dumpTexts at h
  split at h
  · cases h
  · next dumps hdumps =>
    obtain ⟨place, directory, hlocate, hfind, hlists⟩ :=
      Discovery.scan_eq_ok htree (dumpsFound_eq_ok hdumps)
    refine ⟨place, directory, dumps, hlocate, hfind, hlists, ?_⟩
    have hlisted := (List.forall₂_and_left _ _).mpr ⟨fun _ hmem => hmem, Outcome.forall₂_of_mapM h⟩
    refine hlisted.imp ?_
    intro found text hgiven
    rcases hgiven with ⟨hmem, htext⟩
    obtain ⟨other, modified, hdump, hfile⟩ :=
      FileTree.readPath_eq_ok (dumpText_eq_ok htext)
    obtain ⟨⟨bytes, hthere⟩, -⟩ := (hlists.mem found).mp hmem
    have hnames := (htree.below hfind).isName hthere
    -- The path that is read leads down to where the dump was found.
    cases FileTree.locate_foldl_join hnames hlocate hdump
    rw [FileTree.find_append_of_ok hfind, hthere] at hfile
    cases hfile
    exact hthere

/-! ## What is written -/

def outputs (request : MergeRequest) : List FilePath :=
  request.output :: request.assembly.toList ++ request.json.toList

/-- The files of a merge, all of them made from the schema and its blob. -/
def files (request : MergeRequest) (schema : Schema) (blob : Bytes) : List PlannedFile :=
  ⟨request.output, blob⟩ ::
    (request.assembly.map fun path =>
      PlannedFile.mk path (Bytes.ofString (Assembly.render blob))).toList ++
    (request.json.map fun path => PlannedFile.mk path (Bytes.ofString schema.toJson.print)).toList

theorem paths_files (schema : Schema) (blob : Bytes) :
    (request.files schema blob).map (·.path) = request.outputs := by
  cases hassembly : request.assembly <;> cases hjson : request.json <;>
    simp [files, outputs, hassembly, hjson]

/-- What is planned is made from the schema of the dumps and its blob. -/
theorem files_of_plan {plan : MergePlan} {schema : Schema}
    (hschema : schema = Schema.merged (texts.map Dump.parse)) (h : request.plan texts = .ok plan) :
    ∃ blob, ((request.width.or schema.arch).getD 8 = 4 ∨
        (request.width.or schema.arch).getD 8 = 8) ∧
      schema.encode ⟨(request.width.or schema.arch).getD 8, hostOrder, request.framed⟩ =
        .ok blob ∧
      plan.files = request.files schema blob := by
  subst hschema
  unfold MergeRequest.plan at h
  simp only at h
  split at h
  · cases h
  · next hwidth =>
    split at h
    · cases h
    · next blob hencode =>
      cases h
      exact ⟨blob, Decidable.or_iff_not_not_and_not.mpr hwidth, hencode, rfl⟩

theorem plan_eq_ok {plan : MergePlan} (h : request.plan texts = .ok plan) :
    ∃ blob others,
      (Schema.merged (texts.map Dump.parse)).encode
          ⟨request.chosenWidth (Schema.merged (texts.map Dump.parse)), hostOrder,
            request.framed⟩ = .ok blob ∧
      plan.files = ⟨request.output, blob⟩ :: others ∧
      ∀ file ∈ others, file.path ∈ request.assembly.toList ++ request.json.toList := by
  obtain ⟨blob, -, hencode, hfiles⟩ := files_of_plan rfl h
  refine ⟨blob, _, hencode, hfiles, ?_⟩
  intro file hmem
  rw [List.mem_append]
  rcases List.mem_append.mp hmem with hassembly | hjson
  · obtain ⟨path, hpath, rfl⟩ := Option.map_eq_some_iff.mp (Option.mem_toList.mp hassembly)
    exact .inl (Option.mem_toList.mpr hpath)
  · obtain ⟨path, hpath, rfl⟩ := Option.map_eq_some_iff.mp (Option.mem_toList.mp hjson)
    exact .inr (Option.mem_toList.mpr hpath)

theorem run_eq_done {stdout : String} (h : request.run tree now = (.done stdout, after)) :
    ∃ texts plan, request.dumpTexts tree = .ok texts ∧ request.plan texts = .ok plan ∧
      writeAll tree now plan.files = (none, after) := by
  unfold MergeRequest.run at h
  split at h
  · cases h
  · next texts htexts =>
    split at h
    · cases h
    · next plan hplan =>
      split at h
      · cases h
      · next hwrite =>
        cases h
        exact ⟨texts, plan, htexts, hplan, hwrite⟩

end MergeRequest

/-- A merge that succeeds, with other files for the assembly text and the schema text than for
the blob, reads the dumps below its input from the oldest to the newest, those of one time in
the order of their paths. What it writes for the host loads again, and the registry has every
type that the blocks of the dumps' lines give, and no other. -/
theorem run_merge_loads {arguments : List String} {tree after : FileTree} {now : Nat}
    {request : MergeRequest} {stdout : String} (htree : tree.WellFormed)
    (hrequest : Request.ofArguments arguments = .ok (.merge request))
    (hdistinct : ∀ other ∈ request.assembly.toList ++ request.json.toList,
      tree.target other ≠ tree.target request.output)
    (hrun : run arguments tree now = (.done stdout, after)) :
    ∃ place directory dumps texts meanings schema blob,
      tree.locate request.input = .ok place ∧ tree.find place = .ok directory ∧
      Discovery.Lists directory dumps ∧ List.Forall₂ (Discovery.Reads directory) dumps texts ∧
      List.Forall₂ Dump.Means texts meanings ∧ Dump.Give meanings schema ∧
      after.readPath request.output = .ok blob ∧
      ((request.width.or schema.arch).getD 8 = 8 → blob.length < UInt64.size →
        ∀ copies tag, ∃ registry,
          Registry.load blob ⟨copies, if request.framed then .detect else .raw⟩ tag =
            .ok registry ∧
          schema.Presented copies registry) := by
  rw [run, hrequest] at hrun
  obtain ⟨texts, plan, htexts, hplan, hwrite⟩ := MergeRequest.run_eq_done hrun
  obtain ⟨place, directory, dumps, hlocate, hfind, hlists, hread⟩ :=
    MergeRequest.dumpTexts_eq_ok htree htexts
  obtain ⟨blob, others, hencode, hfiles, hothers⟩ := MergeRequest.plan_eq_ok hplan
  rw [hfiles] at hwrite
  have hblob : after.readPath request.output = .ok blob :=
    readPath_writeAll hwrite fun later hmem => hdistinct later.path (hothers later hmem)
  have hgive := Dump.give_merged (texts.map Dump.parse)
  refine ⟨place, directory, dumps, texts, _, _, blob, hlocate, hfind, hlists, hread,
    Dump.forall₂_means_iff.mpr rfl, hgive, hblob, ?_⟩
  intro hwidth hsize copies tag
  rw [show request.chosenWidth (Schema.merged (texts.map Dump.parse)) = 8 from hwidth] at hencode
  obtain ⟨registry, hload, hrestored⟩ := Schema.load_written hencode hsize copies tag
  refine ⟨registry, hload, hrestored.presented ?_⟩
  rw [hgive.names]
  exact Keyed.nodup_eraseDups _

namespace MergeRequest

def olderDump : String := "base\nname int\nsize 2\n"

def newerDump : String :=
  "struct\nname pair\nsize 8\nfield\nname left\ntype int\nbase\nname int\nsize 4\n"

def sampleDumps : List (Bytes × FileTree) := [
  (Bytes.ofString "pair.reflection.dat", .file 2 (Bytes.ofString newerDump)),
  (Bytes.ofString "int.reflection.dat", .file 1 (Bytes.ofString olderDump))]

def sampleTree : FileTree := .directory [(Bytes.ofString "dumps", .directory sampleDumps)]

def sampleArguments : List String :=
  ["merge", "dumps", "--output", "types.blob", "--arch", "8", "--asm", "types.S"]

def sample : MergeRequest :=
  ⟨.ofText "dumps", .ofText "types.blob", true, some 8, some (.ofText "types.S"), none⟩

/-- What the dumps give: the older one names the first type, and the newer one gives its size. -/
def sampleSchema : Schema where
  arch := none
  types := [⟨"int", .base, 4, [], [], []⟩,
    ⟨"pair", .struct, 8, [], [⟨"left", "int", 0, 0, 0, false, false⟩], []⟩]

theorem wellFormed_sampleTree : sampleTree.WellFormed := by
  have hdumps : (FileTree.directory sampleDumps).WellFormed := by
    refine FileTree.wellFormed_directory (by decide +kernel) (by decide +kernel) ?_
    intro entry hmem
    simp only [sampleDumps, List.mem_cons, List.not_mem_nil, or_false] at hmem
    rcases hmem with rfl | rfl <;> exact FileTree.wellFormed_file _ _
  refine FileTree.wellFormed_directory (by decide +kernel) (by decide +kernel) ?_
  intro entry hmem
  rw [List.mem_singleton] at hmem
  exact hmem ▸ hdumps

theorem sample_dumpTexts : sample.dumpTexts sampleTree = .ok [olderDump, newerDump] := by
  have hscan : Discovery.scan sampleTree sample.input =
      .ok [⟨[Bytes.ofString "int.reflection.dat"], 1⟩,
        ⟨[Bytes.ofString "pair.reflection.dat"], 2⟩] := by
    have hfound : Discovery.dumpsIn sampleTree sample.input sampleDumps =
        .ok [⟨[Bytes.ofString "pair.reflection.dat"], 2⟩,
          ⟨[Bytes.ofString "int.reflection.dat"], 1⟩] := by decide +kernel
    have hread : sampleTree.readDirectory sample.input = .ok sampleDumps := rfl
    simp only [Discovery.scan, hread, hfound, Except.map, Discovery.order]
    simp [List.mergeSort, Discovery.earlier]
  rw [dumpTexts, hscan]
  decide +kernel

theorem merged_sample : Schema.merged ([olderDump, newerDump].map Dump.parse) = sampleSchema := by
  decide +kernel

/-- Nothing but the sample's schema is what the dumps of the sample give. -/
theorem schema_of_sample {place : List Bytes} {directory : FileTree} {dumps : List FoundDump}
    {texts : List String} {meanings : List Schema} {schema : Schema}
    (hlocate : sampleTree.locate sample.input = .ok place)
    (hfind : sampleTree.find place = .ok directory) (hlists : Discovery.Lists directory dumps)
    (hread : List.Forall₂ (Discovery.Reads directory) dumps texts)
    (hmeans : List.Forall₂ Dump.Means texts meanings) (hgive : Dump.Give meanings schema) :
    schema = sampleSchema := by
  obtain ⟨_, _, found, hplace, hdirectory, hfound, htexts⟩ :=
    dumpTexts_eq_ok wellFormed_sampleTree sample_dumpTexts
  cases hlocate.symm.trans hplace
  cases hfind.symm.trans hdirectory
  cases hlists.unique hfound
  cases List.right_unique_forall₂' (Discovery.rightUnique_reads directory) hread htexts
  rw [Dump.give_iff.mp hgive, ← Dump.forall₂_means_iff.mp hmeans, merged_sample]

end MergeRequest

/-- The sample is merged, and what it writes loads with its two types. -/
theorem run_merge_loads_sample :
    ∃ after blob registry,
      MergeRequest.sampleTree.WellFormed ∧
      Request.ofArguments MergeRequest.sampleArguments = .ok (.merge MergeRequest.sample) ∧
      (∀ other ∈ MergeRequest.sample.assembly.toList ++ MergeRequest.sample.json.toList,
        MergeRequest.sampleTree.target other ≠
          MergeRequest.sampleTree.target MergeRequest.sample.output) ∧
      run MergeRequest.sampleArguments MergeRequest.sampleTree 3 =
        (.done "[OK] Merged 2 dumps: 2 types, 125 bytes -> types.blob\n", after) ∧
      after.readPath MergeRequest.sample.output = .ok blob ∧
      Registry.load blob ⟨false, .detect⟩ 0 = .ok registry ∧
      MergeRequest.sampleSchema.Presented false registry := by
  have hrequest : Request.ofArguments MergeRequest.sampleArguments =
      .ok (.merge MergeRequest.sample) := by decide +kernel
  have hdistinct : ∀ other ∈ MergeRequest.sample.assembly.toList ++
      MergeRequest.sample.json.toList, MergeRequest.sampleTree.target other ≠
        MergeRequest.sampleTree.target MergeRequest.sample.output := by
    intro other hmem
    have hother : other = .ofText "types.S" := by simpa [MergeRequest.sample] using hmem
    rw [hother]
    decide +kernel
  have hdone : (MergeRequest.sample.run MergeRequest.sampleTree 3).1 =
      .done "[OK] Merged 2 dumps: 2 types, 125 bytes -> types.blob\n" := by
    rw [MergeRequest.run, MergeRequest.sample_dumpTexts]
    decide +kernel
  have hlength : ((MergeRequest.sample.run MergeRequest.sampleTree 3).2.readPath
      MergeRequest.sample.output).map List.length = .ok 125 := by
    rw [MergeRequest.run, MergeRequest.sample_dumpTexts]
    decide +kernel
  have hrun : run MergeRequest.sampleArguments MergeRequest.sampleTree 3 =
      (.done "[OK] Merged 2 dumps: 2 types, 125 bytes -> types.blob\n",
        (MergeRequest.sample.run MergeRequest.sampleTree 3).2) := by
    rw [run, hrequest]
    exact Prod.ext hdone rfl
  obtain ⟨place, directory, dumps, texts, meanings, schema, blob, hlocate, hfind, hlists, hread,
    hmeans, hgive, hblob, hloads⟩ :=
    run_merge_loads MergeRequest.wellFormed_sampleTree hrequest hdistinct hrun
  have hsize : blob.length < UInt64.size := by
    rw [hblob] at hlength
    rw [Except.ok.inj hlength]
    decide
  have hschema : schema = MergeRequest.sampleSchema :=
    MergeRequest.schema_of_sample hlocate hfind hlists hread hmeans hgive
  obtain ⟨registry, hload, hpresented⟩ := hloads (hschema ▸ rfl) hsize false 0
  exact ⟨_, blob, registry, MergeRequest.wellFormed_sampleTree, hrequest, hdistinct, hrun, hblob,
    hload, hschema ▸ hpresented⟩

end TypeAtlas
