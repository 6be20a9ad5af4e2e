import KeyHarvest.Proofs.AskedDirectories
import KeyHarvest.Proofs.ByteExtraction
import KeyHarvest.Proofs.ByteOrder
import KeyHarvest.Proofs.SameWork
import Mathlib.Tactic.Tauto

/-!
# The order of the paths that are asked for

What is found at several paths is the union of what is found at each of them, in ascending order, so
neither the order nor the repetition of the paths plays a part (`files_scanPaths_congr`). The batch
is then the same, and only the notices come in the order of the paths. A report shows the files in
the order of the bytes of their paths (`ascending_batchOf`).
-/
namespace KeyHarvest

/-! ### What is found at several paths -/

variable {workspace : Workspace} {filter : Filter} {path : Text} {paths paths' : List Text}

theorem mem_files_scanPaths :
    path ∈ (scanPaths workspace filter paths).files ↔
      ∃ start ∈ paths, path ∈ (scanPath workspace filter start).files := by
  rw [scanPaths]
  dsimp only
  rw [mem_sortTexts, List.flatMap_map, List.mem_flatMap]

theorem files_scanPaths_congr (same : ∀ path, path ∈ paths ↔ path ∈ paths') :
    (scanPaths workspace filter paths').files = (scanPaths workspace filter paths).files := by
  have ascending : ∀ paths, (scanPaths workspace filter paths).files.Pairwise (· < ·) :=
    fun _ => ascending_sortTexts _
  -- Lists that ascend are equal as soon as they have the same members.
  rw [eq_iff_of_ascending (ascending paths') (ascending paths)]
  intro path
  rw [mem_files_scanPaths, mem_files_scanPaths]
  exact exists_congr fun start => and_congr_left' (same start).symm

theorem files_discover_congr (config : Config) (same : ∀ path, path ∈ paths ↔ path ∈ paths') :
    (discover workspace config paths').files = (discover workspace config paths).files := by
  have none : paths'.isEmpty = paths.isEmpty := by
    rw [Bool.eq_iff_iff, List.isEmpty_iff, List.isEmpty_iff, List.eq_nil_iff_forall_not_mem,
      List.eq_nil_iff_forall_not_mem]
    exact forall_congr' fun path => not_congr (same path).symm
  rw [discover, discover, none]
  split
  · rfl
  · exact files_scanPaths_congr same

/-! ### The order of the files -/

theorem ascending_files_discover (workspace : Workspace) (config : Config) (paths : List Text) :
    (discover workspace config paths).files.Pairwise (· < ·) := by
  rw [discover]
  split
  · exact ascending_sortTexts _
  · exact ascending_sortTexts _

/-- The files of a batch ascend by the bytes of their paths. -/
theorem ascending_batchOf (workspace : Workspace) (config : Config) (paths : List Text) :
    (batchOf workspace config paths).files.Pairwise
      fun file file' => encode file.path < encode file'.path := by
  rw [batchOf, files_eq_filterMap_extractSource, List.pairwise_filterMap]
  refine (ascending_files_discover workspace config paths).imp ?_
  intro path path' less file extracted file' extracted'
  obtain ⟨content, -, rfl⟩ := Option.map_eq_some_iff.mp extracted
  obtain ⟨content', -, rfl⟩ := Option.map_eq_some_iff.mp extracted'
  exact encode_lt_encode less

/-! ### Runs -/

/-- Both ask for the same, at the same paths, in whatever order and however often. -/
structure ExtractRequest.SamePaths (request request' : ExtractRequest) : Prop where
  paths : ∀ path, path ∈ request.paths ↔ path ∈ request'.paths
  others : request' = { request with paths := request'.paths }

theorem ExtractRequest.SamePaths.sameWork {request request' : ExtractRequest}
    (same : request.SamePaths request') (workspace : Workspace) :
    SameWork workspace workspace request request' := by
  refine ⟨Iff.rfl, fun _ => ?_, fun config _ => ?_⟩
  · rw [same.others]
    rfl
  · rw [batchOf, batchOf, files_discover_congr config same.paths]

/-- The order and the repetition of the paths that are asked for change neither what is written nor
how the extraction ends, and without details nothing of what is told. The files are written in the
order of the bytes of their paths. -/
theorem run_of_samePaths (colours : Bool) (workspace : Workspace) {arguments arguments' : List Text}
    {request request' : ExtractRequest} (asked : readArguments arguments = .ok (.extract request))
    (asked' : readArguments arguments' = .ok (.extract request'))
    (same : request.SamePaths request') :
    let outcome := run colours workspace arguments
    let outcome' := run colours workspace arguments'
    outcome'.stdout = outcome.stdout ∧ outcome'.status = outcome.status ∧
      (request.verbose = false → outcome'.stderr = outcome.stderr) ∧
      (outcome.status ≠ .error → ∃ config, resolveConfig workspace request = .ok config ∧
        let batch := batchOf workspace config request.paths
        outcome.stdout = request.format.report colours batch ∧
          batch.files.Pairwise fun file file' => encode file.path < encode file'.path) := by
  intro outcome outcome'
  have ran : outcome = runExtract colours workspace request := run_of_asked asked
  have ran' : outcome' = runExtract colours workspace request' := run_of_asked asked'
  have work := same.sameWork workspace
  have format : request'.format = request.format := by rw [same.others]
  have verbose : request'.verbose = request.verbose := by rw [same.others]
  rw [ran, ran']
  refine ⟨work.stdout format, work.status, fun quiet => ?_, fun works => ?_⟩
  · -- The notices come in the order of the paths, so they may differ; but they are not told.
    refine work.stderr verbose fun loud => ?_
    rw [quiet] at loud
    cases loud
  · rcases work.outcomes colours with ⟨message, failed, -⟩ | ⟨config, resolved, extracted, -⟩
    · rw [failed] at works
      exact absurd rfl works
    · refine ⟨config, resolved, ?_, ascending_batchOf workspace config request.paths⟩
      rw [extracted]
      rfl

/-- A page in a directory, and one whose name is beyond ASCII. -/
def overlappingPages : Workspace :=
  ⟨⟨[(["é.html".toList], .file (encode "<p data-i18n=b>".toList)), (["a".toList], .directory),
    (["a".toList, "x.html".toList], .file (encode "<p data-i18n=a>".toList))], []⟩, []⟩

/-- The page in the directory is asked for by itself, too. -/
def overlappingRequest : ExtractRequest :=
  ⟨["é.html".toList, "a".toList, "a/x.html".toList], none, none, .text, none, false⟩

theorem run_of_samePaths_overlappingPages :
    let arguments := ["extract".toList, "é.html".toList, "a".toList, "a/x.html".toList]
    let arguments' := ["extract".toList, "a/x.html".toList, "é.html".toList, "a".toList,
      "é.html".toList]
    let request' := { overlappingRequest with paths := arguments'.drop 1 }
    let outcome := run false overlappingPages arguments
    readArguments arguments = .ok (.extract overlappingRequest) ∧
      readArguments arguments' = .ok (.extract request') ∧
      overlappingRequest.SamePaths request' ∧
      outcome.stdout =
        "a/x.html\n  a\n\né.html\n  b\n\n\u2713 Extracted 2 keys from 2 files\n".toList ∧
      (run false overlappingPages arguments').stdout = outcome.stdout ∧
      (run false overlappingPages arguments').stderr = outcome.stderr := by
  intro arguments arguments' request' outcome
  have asked : readArguments arguments = .ok (.extract overlappingRequest) := by rfl
  have asked' : readArguments arguments' = .ok (.extract request') := by rfl
  have same : overlappingRequest.SamePaths request' := by
    refine ⟨fun path => ?_, rfl⟩
    simp only [overlappingRequest, request', arguments', List.drop, List.mem_cons,
      List.not_mem_nil, or_false]
    tauto
  obtain ⟨stdout, -, stderr, -⟩ := run_of_samePaths false overlappingPages asked asked' same
  exact ⟨asked, asked', same, by decide +kernel, stdout, stderr rfl⟩

end KeyHarvest
