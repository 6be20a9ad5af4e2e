import KeyHarvest.Command.Run
import KeyHarvest.Proofs.Walks

/-!
# What the exit status of an extraction tells

The status of an extraction tells whether the files that it discovered could be read
(`status_runExtract`). A place that is not there is counted as skipped, and so is a directory that
cannot be listed (`skipped_discover`). That count has no part in the status: an extraction can
succeed although a path that was asked for does not exist.
-/
namespace KeyHarvest

/-! ### Skipped places -/

theorem isSome_noticeOf?_scanItem (base : Text) (filter : Filter)
    (item : Except Workspace.WalkError (Text × Entry)) :
    ((scanItem base filter item).bind noticeOf?).isSome = !item.isOk := by
  cases item with
  | error failure => rfl
  | ok told =>
    rw [scanItem]
    split <;> rfl

/-- Whatever the walks fail at is skipped. -/
theorem skipped_scanFiles (workspace : Workspace) (base : Text) (filter : Filter) :
    (scanFiles workspace base filter).skipped =
      ((resolveIncludes workspace base filter.includes).1.flatMap workspace.walk).countP
        (!·.isOk) := by
  have missed : (scanFiles workspace base filter).skipped =
      (((resolveIncludes workspace base filter.includes).1.flatMap fun path =>
        (workspace.walk path).filterMap (scanItem base filter)).filterMap noticeOf?).length := rfl
  -- An item of a walk is missed if it is an error, whatever the filter keeps.
  rw [missed, ← List.filterMap_flatMap, List.filterMap_filterMap,
    List.length_filterMap_eq_countP]
  simp only [isSome_noticeOf?_scanItem]

theorem skipped_scanPath (workspace : Workspace) (filter : Filter) (path : Text) :
    (scanPath workspace filter path).skipped = (workspace.walk path).countP (!·.isOk) := by
  rw [scanPath]
  split
  next file =>
    obtain ⟨content, walked⟩ := walk_of_isFile file
    rw [walked]
    rfl
  next other =>
    split
    next =>
      rw [skipped_scanFiles]
      exact congrArg _ (List.flatMap_singleton ..)
    next other' =>
      -- What is neither a file nor a directory is not there.
      rw [Workspace.walk]
      rw [Workspace.isFile] at other
      rw [Workspace.isDirectory] at other'
      rcases found : workspace.entryAt path with problem | ⟨place, entry⟩
      · rfl
      · cases entry with
        | file content => simp [found] at other
        | directory => simp [found] at other'

theorem foldl_skipped (workspace : Workspace) (filter : Filter) (count : Nat) (paths : List Text) :
    paths.foldl (fun count path => count + (scanPath workspace filter path).skipped) count =
      count + (paths.flatMap workspace.walk).countP (!·.isOk) := by
  induction paths generalizing count with
  | nil => rfl
  | cons path rest ih =>
    rw [List.foldl_cons, ih, skipped_scanPath, Nat.add_assoc, ← List.countP_append]
    rfl

theorem skipped_scanPaths (workspace : Workspace) (filter : Filter) (paths : List Text) :
    (scanPaths workspace filter paths).skipped =
      (paths.flatMap workspace.walk).countP (!·.isOk) := by
  rw [scanPaths]
  dsimp only
  rw [List.foldl_map, foldl_skipped, Nat.zero_add]

theorem countP_flatMap_walk (workspace : Workspace) (starts : List Text) :
    (starts.flatMap workspace.walk).countP (!·.isOk) =
      starts.countP (!workspace.isPresent ·) + (starts.flatMap workspace.unlisted).length := by
  induction starts with
  | nil => rfl
  | cons start starts ih =>
    rw [List.flatMap_cons, List.countP_append, ih, Workspace.countP_walk, List.flatMap_cons,
      List.length_append]
    simp only [List.countP_cons, List.countP_nil]
    omega

/-- The places where an extraction starts to search: those asked for, or else those of the
configuration. -/
def startingPlaces (workspace : Workspace) (config : Config) (paths : List Text) : List Text :=
  if paths.isEmpty then (resolveIncludes workspace config.sourceRoot config.includes).1 else paths

/-- Places that are not there are skipped, and directories that cannot be listed. -/
theorem skipped_discover (workspace : Workspace) (config : Config) (paths : List Text) :
    (discover workspace config paths).skipped =
      (startingPlaces workspace config paths).countP (!workspace.isPresent ·) +
        ((startingPlaces workspace config paths).flatMap workspace.unlisted).length := by
  rw [← countP_flatMap_walk, discover, startingPlaces]
  split
  · exact skipped_scanFiles ..
  · exact skipped_scanPaths ..

/-- One path leads nowhere, and the other one to a closed directory. -/
example : (discover ⟨⟨[(["own".toList], .directory)], [["own".toList]]⟩, []⟩ .default
    ["a.html".toList, "own".toList]).skipped = 2 := by decide +kernel

/-! ### Files that cannot be read -/

/-- Every one of the files can be read. -/
def AllReadable (workspace : Workspace) (files : List Text) : Prop :=
  ∀ path ∈ files, (workspace.read path).isOk = true

instance (workspace : Workspace) (files : List Text) : Decidable (AllReadable workspace files) :=
  inferInstanceAs (Decidable (∀ path ∈ files, _))

theorem isEmpty_failures {workspace : Workspace} {markers : Markers} {files : List Text} :
    (extractFiles workspace markers files).failures.isEmpty = true ↔
      AllReadable workspace files := by
  rw [List.isEmpty_iff, extractFiles]
  dsimp only
  rw [List.filterMap_map, List.filterMap_eq_nil_iff]
  refine forall_congr' fun path => imp_congr_right fun _ => ?_
  rw [Function.comp, extractFile]
  cases workspace.read path <;> simp [Except.isOk, Except.toBool]

/-- An extraction that gets to its work ends by whether the files it discovers can be read. -/
theorem status_runExtract {colours : Bool} {workspace : Workspace} {request : ExtractRequest}
    {config : Config} (stands : workspace.disk.entry? workspace.here = some .directory)
    (resolved : resolveConfig workspace request = .ok config) :
    (runExtract colours workspace request).status =
      if AllReadable workspace (discover workspace config request.paths).files then .success
      else .failure := by
  rw [runExtract, stands]
  dsimp only
  rw [resolved]
  dsimp only
  simp only [isEmpty_failures]

/-- An extraction that does not get to its work ends with an error. -/
theorem status_runExtract_of_not {colours : Bool} {workspace : Workspace}
    {request : ExtractRequest}
    (none : ¬ (workspace.disk.entry? workspace.here = some .directory ∧
      ∃ config, resolveConfig workspace request = .ok config)) :
    (runExtract colours workspace request).status = .error := by
  rw [runExtract]
  split
  next stands =>
    split
    next => rfl
    next config resolved => exact absurd ⟨stands, config, resolved⟩ none
  next => rfl

/-- The status of an extraction tells whether it got to its work and could read every file that it
discovered. Places that are not there and directories that cannot be listed are counted as skipped,
and play no part in the status. -/
theorem code_eq_zero_iff (colours : Bool) (workspace : Workspace) (arguments : List Text)
    (request : ExtractRequest) (asked : readArguments arguments = .ok (.extract request)) :
    ((run colours workspace arguments).status.code = 0 ↔
        workspace.disk.entry? workspace.here = some .directory ∧
          ∃ config, resolveConfig workspace request = .ok config ∧
            AllReadable workspace (discover workspace config request.paths).files) ∧
      ((run colours workspace arguments).status.code = 1 ↔
        workspace.disk.entry? workspace.here = some .directory ∧
          ∃ config, resolveConfig workspace request = .ok config ∧
            ¬ AllReadable workspace (discover workspace config request.paths).files) ∧
      ∀ config, (discover workspace config request.paths).skipped =
        (startingPlaces workspace config request.paths).countP (!workspace.isPresent ·) +
          ((startingPlaces workspace config request.paths).flatMap workspace.unlisted).length := by
  have ran : run colours workspace arguments = runExtract colours workspace request := by
    rw [run, asked]
    rfl
  have counted := skipped_discover workspace
  rw [ran]
  by_cases works : workspace.disk.entry? workspace.here = some .directory ∧
      ∃ config, resolveConfig workspace request = .ok config
  · obtain ⟨stands, config, resolved⟩ := works
    rw [status_runExtract stands resolved]
    simp only [stands, resolved, Except.ok.injEq, exists_eq_left', true_and]
    refine ⟨?_, ?_, fun config => counted config request.paths⟩
    · split
      next all => exact iff_of_true rfl all
      next unread => exact iff_of_false (by decide) unread
    · split
      next all => exact iff_of_false (by decide) (fun unread => unread all)
      next unread => exact iff_of_true rfl unread
  · -- Neither of the two statuses is that of an extraction that does not get to its work.
    rw [status_runExtract_of_not works]
    refine ⟨iff_of_false (by decide) ?_, iff_of_false (by decide) ?_,
      fun config => counted config request.paths⟩
    · exact fun ⟨stands, config, resolved, _⟩ => works ⟨stands, config, resolved⟩
    · exact fun ⟨stands, config, resolved, _⟩ => works ⟨stands, config, resolved⟩

/-- All work of a request was done: what was asked for is there, nothing was skipped, and every file
was read. -/
def AllWorkDone (workspace : Workspace) (config : Config) (request : ExtractRequest) : Prop :=
  (∀ path ∈ request.paths, workspace.isPresent path = true) ∧
    (discover workspace config request.paths).skipped = 0 ∧
      AllReadable workspace (discover workspace config request.paths).files

def emptyPage : Workspace := ⟨⟨[(["a.html".toList], .file [])], []⟩, []⟩

def missingPath : ExtractRequest :=
  ⟨["a.html".toList, "b.html".toList], none, none, .text, none, false⟩

theorem eq_ok_of_toOption {problem result : Type} {outcome : Except problem result} {value : result}
    (found : outcome.toOption = some value) : outcome = .ok value := by
  cases outcome with
  | error problem => cases found
  | ok other => exact congrArg Except.ok (Option.some.inj found)

theorem resolved_missingPath : resolveConfig emptyPage missingPath = .ok .default :=
  eq_ok_of_toOption (by decide +kernel)

theorem code_eq_zero_missingPath :
    let arguments := ["extract".toList, "a.html".toList, "b.html".toList]
    readArguments arguments = .ok (.extract missingPath) ∧
      (run false emptyPage arguments).status.code = 0 ∧
      (discover emptyPage .default missingPath.paths).skipped = 1 := by
  intro arguments
  have asked : readArguments arguments = .ok (.extract missingPath) := by rfl
  obtain ⟨success, -, skipped⟩ := code_eq_zero_iff false emptyPage arguments missingPath asked
  refine ⟨asked, success.mpr ⟨rfl, .default, resolved_missingPath, by decide +kernel⟩, ?_⟩
  rw [skipped]
  decide +kernel

/-- A path that was asked for is not there, and the extraction succeeds. -/
theorem not_allWorkDone :
    ¬ ∀ (colours : Bool) (workspace : Workspace) (arguments : List Text)
        (request : ExtractRequest) (config : Config),
      readArguments arguments = .ok (.extract request) →
        resolveConfig workspace request = .ok config →
          (run colours workspace arguments).status.code = 0 →
            AllWorkDone workspace config request := by
  intro done
  have all := done false emptyPage ["extract".toList, "a.html".toList, "b.html".toList] missingPath
    .default rfl resolved_missingPath (by decide +kernel)
  exact absurd (all.1 "b.html".toList (by decide +kernel)) (by decide +kernel)

end KeyHarvest
