import KeyHarvest.Command.Run
import KeyHarvest.Proofs.Batches

/-!
# Extractions that do the same work

Two extractions do the same work if both get to it, under the same configuration, and come to the
same batch (`SameWork`). Then they end with the same status. In the same format they write the same
(`SameWork.stdout`), and what they tell is the same if they are asked for the same details
(`SameWork.stderr`).
-/
namespace KeyHarvest

/-- What is written for a batch. -/
def Format.report (format : Format) (colours : Bool) (batch : Batch) : Text :=
  match format with
  | .text => Report.text colours batch
  | .json => Report.json batch

/-- What is extracted from the files that are discovered. -/
def batchOf (workspace : Workspace) (config : Config) (paths : List Text) : Batch :=
  extractFiles workspace config.markers (discover workspace config paths).files

/-- What an extraction leaves behind that comes to a batch. -/
def Outcome.extracted (colours : Bool) (workspace : Workspace) (request : ExtractRequest)
    (notices : List Notice) (batch : Batch) : Outcome where
  status := if batch.failures.isEmpty then .success else .failure
  stdout := request.format.report colours batch
  stderr := Report.notices colours request.verbose notices ++
    Report.diagnostics colours request.verbose batch
  workspace := workspace

theorem run_of_asked {colours : Bool} {workspace : Workspace} {arguments : List Text}
    {request : Request} (asked : readArguments arguments = .ok request) :
    run colours workspace arguments = runRequest colours workspace request := by
  rw [run, asked]

variable {colours : Bool} {workspace workspace' : Workspace} {request request' : ExtractRequest}

/-! ### What an extraction comes to -/

theorem runExtract_of_ok {config : Config}
    (stands : workspace.disk.entry? workspace.here = some .directory)
    (resolved : resolveConfig workspace request = .ok config) :
    runExtract colours workspace request =
      .extracted colours workspace request (discover workspace config request.paths).notices
        (batchOf workspace config request.paths) := by
  rw [runExtract, stands]
  dsimp only
  rw [resolved, Outcome.extracted, Format.report.eq_def]
  rfl

theorem runExtract_of_error {message : Text}
    (stands : workspace.disk.entry? workspace.here = some .directory)
    (resolved : resolveConfig workspace request = .error message) :
    runExtract colours workspace request = .failed workspace message := by
  rw [runExtract, stands]
  dsimp only
  rw [resolved]

theorem runExtract_of_missing
    (missing : ¬ workspace.disk.entry? workspace.here = some .directory) :
    runExtract colours workspace request = .failed workspace
      ("Failed to resolve current directory.: ".toList ++ FileError.notFound.message) := by
  rw [runExtract]
  split
  next stands => exact absurd stands missing
  next => rfl

/-! ### The same work -/

/-- Both extractions get to their work or neither does, with one configuration, or for one reason
without any, and what they extract under it is the same. -/
structure SameWork (workspace workspace' : Workspace) (request request' : ExtractRequest) :
    Prop where
  stands : workspace'.disk.entry? workspace'.here = some .directory ↔
    workspace.disk.entry? workspace.here = some .directory
  resolved : workspace.disk.entry? workspace.here = some .directory →
    resolveConfig workspace' request' = resolveConfig workspace request
  batch : ∀ config, resolveConfig workspace request = .ok config →
    batchOf workspace' config request'.paths = batchOf workspace config request.paths

/-- A batch is made of the files that are discovered, and of what is read of them. -/
theorem batchOf_congr {config : Config} {paths paths' : List Text}
    (discovered : discover workspace' config paths' = discover workspace config paths)
    (read : ∀ path ∈ (discover workspace config paths).files,
      workspace'.read path = workspace.read path) :
    batchOf workspace' config paths' = batchOf workspace config paths := by
  rw [batchOf, batchOf, discovered]
  exact extractFiles_congr read

/-- Only the paths and what replaces settings have a part in the work. -/
theorem sameWork_of_override (workspace : Workspace) (paths : request'.paths = request.paths)
    (override : request'.override = request.override) :
    SameWork workspace workspace request request' := by
  refine ⟨Iff.rfl, fun _ => ?_, fun config _ => ?_⟩
  · rw [resolveConfig, resolveConfig, override]
  · rw [paths]

namespace SameWork

theorem outcomes (same : SameWork workspace workspace' request request') (colours : Bool) :
    (∃ message, runExtract colours workspace request = .failed workspace message ∧
        runExtract colours workspace' request' = .failed workspace' message) ∨
      ∃ config, resolveConfig workspace request = .ok config ∧
        let batch := batchOf workspace config request.paths
        runExtract colours workspace request = .extracted colours workspace request
            (discover workspace config request.paths).notices batch ∧
          runExtract colours workspace' request' = .extracted colours workspace' request'
            (discover workspace' config request'.paths).notices batch := by
  -- It fails where the directory is missing, and where no configuration is resolved.
  by_cases stands : workspace.disk.entry? workspace.here = some .directory
  · have stands' := same.stands.mpr stands
    have resolved' := same.resolved stands
    cases resolved : resolveConfig workspace request with
    | error message =>
      exact .inl ⟨message, runExtract_of_error stands resolved,
        runExtract_of_error stands' (resolved'.trans resolved)⟩
    | ok config =>
      refine .inr ⟨config, rfl, runExtract_of_ok stands resolved, ?_⟩
      rw [runExtract_of_ok stands' (resolved'.trans resolved), same.batch config resolved]
  · exact .inl ⟨_, runExtract_of_missing stands,
      runExtract_of_missing (mt same.stands.mp stands)⟩

theorem status (same : SameWork workspace workspace' request request') :
    (runExtract colours workspace' request').status =
      (runExtract colours workspace request).status := by
  rcases same.outcomes colours with ⟨message, ran, ran'⟩ | ⟨config, -, ran, ran'⟩
  · rw [ran, ran']
    rfl
  · rw [ran, ran']
    rfl

theorem stdout (same : SameWork workspace workspace' request request')
    (format : request'.format = request.format) :
    (runExtract colours workspace' request').stdout =
      (runExtract colours workspace request).stdout := by
  rcases same.outcomes colours with ⟨message, ran, ran'⟩ | ⟨config, -, ran, ran'⟩
  · rw [ran, ran']
    rfl
  · rw [ran, ran', Outcome.extracted, Outcome.extracted, format]

/-- The notices of the scans count only where they are told. -/
theorem stderr (same : SameWork workspace workspace' request request')
    (verbose : request'.verbose = request.verbose)
    (notices : request.verbose = true → ∀ config, resolveConfig workspace request = .ok config →
      (discover workspace' config request'.paths).notices =
        (discover workspace config request.paths).notices) :
    (runExtract colours workspace' request').stderr =
      (runExtract colours workspace request).stderr := by
  rcases same.outcomes colours with ⟨message, ran, ran'⟩ | ⟨config, resolved, ran, ran'⟩
  · rw [ran, ran']
    rfl
  · rw [ran, ran', Outcome.extracted, Outcome.extracted, verbose]
    cases details : request.verbose with
    | false => rfl
    | true => rw [notices details config resolved]

end SameWork
end KeyHarvest
