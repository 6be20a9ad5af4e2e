import KeyHarvest.Files.Content
import KeyHarvest.Proofs.ExitStatus

/-!
# Discovery does not look into files

Where paths lead, what stands there and what is found does not depend on the content of files: it is
the same in a tree of the same shape (`Workspace.entryAt_mapContents`, `discover_mapContents`,
`Config.find?_mapContents`). Only reading a file shows its content, and a file that is not
overwritten is read as before (`Workspace.read_overwrite_of_ne`).
-/
namespace KeyHarvest

variable {change : Location → List UInt8 → List UInt8}

/-! ### Where paths lead -/

namespace Disk

variable {disk : Disk} {location : Location}

theorem entry?_mapContents :
    Disk.entry? (disk.mapContents change) location =
      (disk.entry? location).map (Entry.mapContent (change location)) := by
  unfold Disk.entry?
  split
  next => rfl
  next =>
    rw [mapContents, List.find?_map]
    simp only [Function.comp_def]
    cases found : disk.entries.find? (·.1 = location) with
    | none => rfl
    | some entry =>
      have place := List.find?_some found
      rw [decide_eq_true_eq] at place
      rw [← place]
      rfl

theorem follow_mapContents (names : List Text) :
    (disk.mapContents change).follow location names = disk.follow location names := by
  induction names generalizing location with
  | nil => rfl
  | cons name rest ih =>
    have present : (Disk.entry? (disk.mapContents change) (location ++ [name])).isNone =
        (disk.entry? (location ++ [name])).isNone := by rw [entry?_mapContents, Option.isNone_map]
    rw [follow, follow, entry?_mapContents, present]
    cases disk.entry? location with
    | none => rfl
    | some entry =>
      cases entry with
      | file content => rfl
      | directory =>
        simp only [Option.map_some, Entry.mapContent, ih]

theorem below_mapContents :
    (disk.mapContents change).below location =
      (disk.below location).map fun (place, entry) => (place, entry.mapContent (change place)) := by
  rw [below, below, mapContents, List.filter_map]
  rfl

theorem listed_mapContents :
    (disk.mapContents change).listed location =
      (disk.listed location).map fun (place, entry) =>
        (place, entry.mapContent (change place)) := by
  rw [listed, listed, below_mapContents, List.filter_map]
  rfl

theorem children_mapContents :
    (disk.mapContents change).children location =
      (disk.children location).map fun (place, entry) =>
        (place, entry.mapContent (change place)) := by
  rw [children, children, listed_mapContents, List.filter_map]
  rfl

end Disk

namespace Workspace

variable {workspace : Workspace} {path : Text}

theorem directory_mapContents (location : Location) :
    (workspace.mapContents change).disk.entry? location = some .directory ↔
      workspace.disk.entry? location = some .directory := by
  rw [mapContents, Disk.entry?_mapContents]
  rcases workspace.disk.entry? location with none | entry
  · simp
  · cases entry <;> simp

theorem locate_mapContents :
    (workspace.mapContents change).locate path = workspace.locate path := by
  rw [locate, locate, mapContents]
  dsimp only
  rw [Disk.follow_mapContents]

theorem entryAt_mapContents :
    (workspace.mapContents change).entryAt path =
      (workspace.entryAt path).map fun (place, entry) =>
        (place, entry.mapContent (change place)) := by
  rw [entryAt, entryAt, locate_mapContents]
  cases workspace.locate path with
  | error problem => rfl
  | ok place =>
    dsimp only
    rw [mapContents, Disk.entry?_mapContents]
    cases workspace.disk.entry? place <;> rfl

theorem isPresent_mapContents :
    (workspace.mapContents change).isPresent path = workspace.isPresent path := by
  rw [isPresent, isPresent, entryAt_mapContents]
  cases workspace.entryAt path <;> rfl

theorem isFile_mapContents :
    (workspace.mapContents change).isFile path = workspace.isFile path := by
  rw [isFile, isFile, entryAt_mapContents]
  rcases workspace.entryAt path with problem | ⟨place, entry⟩
  · rfl
  · cases entry <;> rfl

theorem isDirectory_mapContents :
    (workspace.mapContents change).isDirectory path = workspace.isDirectory path := by
  rw [isDirectory, isDirectory, entryAt_mapContents]
  rcases workspace.entryAt path with problem | ⟨place, entry⟩
  · rfl
  · cases entry <;> rfl

theorem isListable_mapContents :
    (workspace.mapContents change).isListable path = workspace.isListable path := by
  rw [isListable, isListable, entryAt_mapContents]
  rcases workspace.entryAt path with problem | ⟨place, entry⟩
  · rfl
  · cases entry <;> rfl

theorem read_mapContents {place : Location} (leads : workspace.locate path = .ok place)
    (kept : change place = id) :
    (workspace.mapContents change).read path = workspace.read path := by
  rw [read, read, entryAt_mapContents, entryAt, leads]
  dsimp only
  cases workspace.disk.entry? place with
  | none => rfl
  | some entry =>
    have same : entry.mapContent (change place) = entry := by
      rw [kept]
      cases entry <;> rfl
    -- The same places are closed in both.
    simp only [Except.map, same]
    rfl

/-- The visit with the new content of what it comes to. -/
def Visit.mapContent (visit : Visit) (change : Location → List UInt8 → List UInt8) : Visit :=
  { visit with entry := visit.entry.mapContent (change visit.location) }

theorem visits_mapContents (place : Location) (entry : Entry) :
    (workspace.mapContents change).visits path place (entry.mapContent (change place)) =
      (workspace.visits path place entry).map (·.mapContent change) := by
  cases entry with
  | file content => rfl
  | directory =>
    simp only [visits, mapContents, Entry.mapContent_directory, Disk.listed_mapContents,
      List.filter_map, List.map_map, List.map_cons]
    rfl

end Workspace

/-! ### What is found -/

variable {workspace : Workspace}

namespace Glob

theorem namesBelow_mapContents (path : Text) (deep : Bool) :
    namesBelow (workspace.mapContents change) path deep = namesBelow workspace path deep := by
  rw [namesBelow, namesBelow, Workspace.entryAt_mapContents]
  rcases workspace.entryAt path with problem | ⟨place, entry⟩
  · rfl
  · cases entry with
    | file content => rfl
    | directory =>
      simp only [Except.map, Entry.mapContent_directory, Workspace.mapContents,
        Disk.listed_mapContents, Disk.children_mapContents]
      cases deep with
      | false => simp [Function.comp_def]
      | true => simp [Function.comp_def]

theorem expandFrom_mapContents (directoriesOnly : Bool) (steps : List Step) :
    expandFrom (workspace.mapContents change) directoriesOnly steps =
      expandFrom workspace directoriesOnly steps := by
  -- Behind `**` two steps are taken at once, so the induction is on the number of steps.
  induction length : steps.length using Nat.strongRecOn generalizing steps with
  | ind bound ih =>
    subst length
    have later : ∀ rest : List Step, rest.length < steps.length →
        expandFrom (workspace.mapContents change) directoriesOnly rest =
          expandFrom workspace directoriesOnly rest := fun rest shorter => ih _ shorter rest rfl
    funext path
    match steps with
    | [] => simp only [expandFrom, Workspace.isDirectory_mapContents]
    | .literal name :: rest =>
      simp only [expandFrom, Workspace.isDirectory_mapContents, Workspace.isPresent_mapContents,
        later rest (Nat.lt_succ_self _)]
    | .wild tokens :: rest =>
      simp only [expandFrom, Workspace.isListable_mapContents, namesBelow_mapContents,
        later rest (Nat.lt_succ_self _)]
    | [.anyDepth] =>
      simp only [expandFrom, Workspace.isDirectory_mapContents, namesBelow_mapContents]
    | .anyDepth :: step :: rest =>
      simp only [expandFrom, namesBelow_mapContents,
        later rest (Nat.lt_succ_of_lt (Nat.lt_succ_self _))]

end Glob

theorem resolveIncludes_mapContents (base : Text) (includes : List Text) :
    resolveIncludes (workspace.mapContents change) base includes =
      resolveIncludes workspace base includes := by
  have one : resolveInclude (workspace.mapContents change) base =
      resolveInclude workspace base := by
    funext pattern
    simp only [resolveInclude, Glob.expand, Glob.expandFrom_mapContents,
      Workspace.isDirectory_mapContents, Workspace.isPresent_mapContents]
  simp only [resolveIncludes, one]

theorem filterMap_report_mapContents (base : Text) (filter : Filter) (visit : Workspace.Visit) :
    ((workspace.mapContents change).report (visit.mapContent change)).filterMap
        (scanItem base filter) =
      (workspace.report visit).filterMap (scanItem base filter) := by
  obtain ⟨path, location, entry⟩ := visit
  cases entry with
  | file content =>
    simp only [Workspace.report, Workspace.Visit.mapContent, Entry.mapContent_file,
      List.filterMap_cons, scanItem, isKept.eq_def]
  | directory => rfl

theorem searchPath_mapContents (base : Text) (filter : Filter) (path : Text) :
    searchPath (workspace.mapContents change) base filter path =
      searchPath workspace base filter path := by
  rw [searchPath, searchPath, Workspace.walk, Workspace.walk, Workspace.entryAt_mapContents]
  rcases workspace.entryAt path with problem | ⟨place, entry⟩
  · rfl
  · -- The same places are visited, and what is kept there does not depend on the content.
    simp only [Except.map, Workspace.visits_mapContents, List.flatMap_map, List.filterMap_flatMap,
      filterMap_report_mapContents]

theorem scanFiles_mapContents (base : Text) (filter : Filter) :
    scanFiles (workspace.mapContents change) base filter = scanFiles workspace base filter := by
  have search : searchPath (workspace.mapContents change) base filter =
      searchPath workspace base filter := funext (searchPath_mapContents base filter)
  simp only [scanFiles, resolveIncludes_mapContents, search]

theorem discover_mapContents (config : Config) (paths : List Text) :
    discover (workspace.mapContents change) config paths = discover workspace config paths := by
  have one : scanPath (workspace.mapContents change) config.filter =
      scanPath workspace config.filter := by
    funext path
    simp only [scanPath, Workspace.isFile_mapContents, Workspace.isDirectory_mapContents,
      scanFiles_mapContents]
  simp only [discover, scanFiles_mapContents, scanPaths, one]

theorem Config.find?_mapContents (directory : Text) :
    Config.find? (workspace.mapContents change) directory = Config.find? workspace directory := by
  rw [Config.find?, Config.find?]
  induction Path.ancestors directory with
  | nil => rfl
  | cons first rest ih =>
    simp only [Config.findIn, Workspace.isPresent_mapContents, ih]

/-! ### One file -/

namespace Workspace

variable {path file : Text} {content : List UInt8}

/-- The file itself is read with its new content. -/
theorem read_overwrite {old : List UInt8} (stands : workspace.read file = .ok old) :
    (workspace.overwrite file content).read file = .ok content := by
  rw [read] at stands
  split at stands
  next => cases stands
  next place entry found =>
    obtain ⟨leads, -⟩ := entryAt_eq_ok_iff.mp found
    rw [overwrite, read, entryAt_mapContents, found, leads]
    split at stands
    next => cases stands
    next opens =>
      -- What was open to be read still is, and it is a file.
      cases entry with
      | directory => cases stands
      | file old =>
        simp only [Except.map, Except.toOption, Entry.mapContent_file]
        exact if_neg opens

/-- A path that leads elsewhere is read as before. -/
theorem read_overwrite_of_ne (other : ¬ workspace.SamePlace path file) :
    (workspace.overwrite file content).read path = workspace.read path := by
  rw [overwrite]
  cases leads : workspace.locate path with
  | error problem =>
    rw [read, read, entryAt_mapContents, entryAt, leads]
    rfl
  | ok place =>
    refine read_mapContents leads (funext fun old => if_neg ?_)
    intro same
    obtain ⟨leads', -⟩ := target_of_locate (eq_ok_of_toOption same)
    exact other ⟨place, (target_of_locate leads).1, leads'⟩

end Workspace
end KeyHarvest
