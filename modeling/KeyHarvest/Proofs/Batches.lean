import KeyHarvest.Batch
import Mathlib.Data.List.Basic

/-!
# Batches

Every path of a batch adds one entry at its place, an extraction if the file can be read and a
failure otherwise (`extractFiles_cons_of_ok`, `extractFiles_cons_of_error`). So both lists keep the
order of the paths (`partitions_extractFiles`), a batch of two lists of paths is the two batches in
a row (`extractFiles_append`), and a file has a part in its own entries only
(`without_extractFiles_congr`).
-/
namespace KeyHarvest

variable {workspace workspace' : Workspace} {markers : Markers} {paths : List Text}

/-! ### One path -/

theorem extractFiles_cons_of_ok {path : Text} {content : List UInt8}
    (read : workspace.read path = .ok content) :
    extractFiles workspace markers (path :: paths) =
      ⟨extractSource markers path (decodeLossy content) ::
          (extractFiles workspace markers paths).files,
        (extractFiles workspace markers paths).failures⟩ := by
  simp only [extractFiles, List.map_cons, extractFile, read, List.filterMap_cons]

theorem extractFiles_cons_of_error {path : Text} {problem : FileError}
    (read : workspace.read path = .error problem) :
    extractFiles workspace markers (path :: paths) =
      ⟨(extractFiles workspace markers paths).files,
        ⟨path, problem⟩ :: (extractFiles workspace markers paths).failures⟩ := by
  simp only [extractFiles, List.map_cons, extractFile, read, List.filterMap_cons]

/-! ### The two lists of a batch -/

/-- The extractions are those of the files that can be read, in the order of their paths. -/
theorem map_path_files (workspace : Workspace) (markers : Markers) (paths : List Text) :
    (extractFiles workspace markers paths).files.map (·.path) =
      paths.filter fun path => (workspace.read path).isOk := by
  induction paths with
  | nil => rfl
  | cons path paths ih =>
    cases read : workspace.read path with
    | ok content =>
      rw [extractFiles_cons_of_ok read, List.filter_cons_of_pos (by rw [read]; rfl), ← ih]
      rfl
    | error problem =>
      have unreadable : ¬ (workspace.read path).isOk = true := by
        rw [read]
        exact Bool.false_ne_true
      rw [extractFiles_cons_of_error read, List.filter_cons, if_neg unreadable, ← ih]

/-- The failures are those of the files that cannot be read, in the order of their paths. -/
theorem map_path_failures (workspace : Workspace) (markers : Markers) (paths : List Text) :
    (extractFiles workspace markers paths).failures.map (·.path) =
      paths.filter fun path => !(workspace.read path).isOk := by
  induction paths with
  | nil => rfl
  | cons path paths ih =>
    cases read : workspace.read path with
    | ok content =>
      have readable : ¬ (!(workspace.read path).isOk) = true := by
        rw [read]
        exact Bool.false_ne_true
      rw [extractFiles_cons_of_ok read, List.filter_cons, if_neg readable, ← ih]
    | error problem =>
      rw [extractFiles_cons_of_error read, List.filter_cons_of_pos (by rw [read]; rfl), ← ih]
      rfl

/-- An extraction shows the content of its own file and nothing else. -/
theorem exists_read_of_mem_files {file : FileExtraction}
    (member : file ∈ (extractFiles workspace markers paths).files) :
    ∃ content, workspace.read file.path = .ok content ∧
      file = extractSource markers file.path (decodeLossy content) := by
  induction paths with
  | nil => cases member
  | cons path paths ih =>
    cases read : workspace.read path with
    | ok content =>
      rw [extractFiles_cons_of_ok read] at member
      rcases List.mem_cons.mp member with rfl | later
      · exact ⟨content, read, rfl⟩
      · exact ih later
    | error problem =>
      rw [extractFiles_cons_of_error read] at member
      exact ih member

theorem read_of_mem_failures {failure : ReadFailure}
    (member : failure ∈ (extractFiles workspace markers paths).failures) :
    workspace.read failure.path = .error failure.problem := by
  induction paths with
  | nil => cases member
  | cons path paths ih =>
    cases read : workspace.read path with
    | ok content =>
      rw [extractFiles_cons_of_ok read] at member
      exact ih member
    | error problem =>
      rw [extractFiles_cons_of_error read] at member
      rcases List.mem_cons.mp member with rfl | later
      · exact read
      · exact ih later

/-- Every path is counted once, on one side or the other. -/
theorem filesChecked_extractFiles (workspace : Workspace) (markers : Markers) (paths : List Text) :
    (extractFiles workspace markers paths).filesChecked = paths.length := by
  have files := congrArg List.length (map_path_files workspace markers paths)
  have failures := congrArg List.length (map_path_failures workspace markers paths)
  rw [List.length_map] at files failures
  rw [Batch.filesChecked, files, failures]
  exact (List.length_eq_length_filter_add _).symm

/-- The batch has an entry for every path and no other: the extraction of its content for a file
that can be read, and what is wrong with it for another, each in the order of the paths. -/
structure Partitions (workspace : Workspace) (markers : Markers) (paths : List Text)
    (batch : Batch) : Prop where
  files : batch.files.map (·.path) = paths.filter fun path => (workspace.read path).isOk
  extracted : ∀ file ∈ batch.files, ∃ content, workspace.read file.path = .ok content ∧
    file = extractSource markers file.path (decodeLossy content)
  failures : batch.failures.map (·.path) = paths.filter fun path => !(workspace.read path).isOk
  failed : ∀ failure ∈ batch.failures, workspace.read failure.path = .error failure.problem
  checked : batch.filesChecked = paths.length

theorem partitions_extractFiles (workspace : Workspace) (markers : Markers) (paths : List Text) :
    Partitions workspace markers paths (extractFiles workspace markers paths) where
  files := map_path_files workspace markers paths
  extracted := fun _ => exists_read_of_mem_files
  failures := map_path_failures workspace markers paths
  failed := fun _ => read_of_mem_failures
  checked := filesChecked_extractFiles workspace markers paths

/-! ### Batches in a row -/

def Batch.append (left right : Batch) : Batch :=
  ⟨left.files ++ right.files, left.failures ++ right.failures⟩

theorem extractFiles_append (workspace : Workspace) (markers : Markers) (left right : List Text) :
    extractFiles workspace markers (left ++ right) =
      (extractFiles workspace markers left).append (extractFiles workspace markers right) := by
  simp only [extractFiles, Batch.append, List.map_append, List.filterMap_append]

/-! ### Leaving a file out -/

/-- The entries that do not belong to a file. -/
def Batch.without (batch : Batch) (path : Text) : Batch :=
  ⟨batch.files.filter (·.path ≠ path), batch.failures.filter (·.path ≠ path)⟩

theorem without_extractFiles (workspace : Workspace) (markers : Markers) (paths : List Text)
    (path : Text) :
    (extractFiles workspace markers paths).without path =
      extractFiles workspace markers (paths.filter (· ≠ path)) := by
  induction paths with
  | nil => rfl
  | cons first others ih =>
    cases read : workspace.read first with
    | ok content =>
      rw [extractFiles_cons_of_ok read, List.filter_cons]
      split
      next other =>
        rw [extractFiles_cons_of_ok read, ← ih]
        simp only [Batch.without, List.filter_cons, extractSource, other, if_true]
      next same =>
        rw [← ih]
        simp only [Batch.without, List.filter_cons, extractSource, same, Bool.false_eq_true,
          if_false]
    | error problem =>
      rw [extractFiles_cons_of_error read, List.filter_cons]
      split
      next other =>
        rw [extractFiles_cons_of_error read, ← ih]
        simp only [Batch.without, List.filter_cons, other, if_true]
      next same =>
        rw [← ih]
        simp only [Batch.without, List.filter_cons, same, Bool.false_eq_true, if_false]

theorem extractFiles_congr (same : ∀ path ∈ paths, workspace'.read path = workspace.read path) :
    extractFiles workspace' markers paths = extractFiles workspace markers paths := by
  have extracted : ∀ path ∈ paths,
      extractFile workspace' markers path = extractFile workspace markers path := by
    intro path member
    rw [extractFile, extractFile, same path member]
  rw [extractFiles, extractFiles, List.map_congr_left extracted]

/-- A file has a part in its own entries only. -/
theorem without_extractFiles_congr {path : Text}
    (same : ∀ other ∈ paths, other ≠ path → workspace'.read other = workspace.read other) :
    (extractFiles workspace' markers paths).without path =
      (extractFiles workspace markers paths).without path := by
  rw [without_extractFiles, without_extractFiles]
  apply extractFiles_congr
  intro other member
  obtain ⟨stands, differs⟩ := List.mem_filter.mp member
  exact same other stands (of_decide_eq_true differs)

end KeyHarvest
