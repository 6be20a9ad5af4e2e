import KeyHarvest.Discovery
import KeyHarvest.Proofs.Places

/-!
# What a scan finds

A scan finds what the walks from the places searched come to, each by the names that lead from the
place to the file (`exists_names_of_mem_walk`). The files of a scan are the kept ones among these
(`mem_files_scanFiles`), and with paths asked for, the files among the paths too
(`exists_walk_of_mem_files_scanPaths`). What a walk cannot look at plays no part in that.
-/
namespace KeyHarvest

/-! ### Ordered sets -/

theorem mem_insertText {path text : Text} {texts : List Text} :
    path ∈ insertText text texts ↔ path = text ∨ path ∈ texts := by
  induction texts with
  | nil => simp [insertText]
  | cons first rest ih =>
    rw [insertText]
    split
    next same => simp [same]
    next other =>
      split
      · simp
      · rw [List.mem_cons, ih, List.mem_cons]
        exact or_left_comm

theorem mem_sortTexts {path : Text} {texts : List Text} :
    path ∈ sortTexts texts ↔ path ∈ texts := by
  induction texts with
  | nil => rfl
  | cons first rest ih =>
    rw [sortTexts, List.foldr_cons, mem_insertText, List.mem_cons]
    exact or_congr_right ih

theorem ascending_insertText {texts : List Text} (ascending : texts.Pairwise (· < ·))
    (text : Text) : (insertText text texts).Pairwise (· < ·) := by
  induction texts with
  | nil => exact List.pairwise_singleton _ text
  | cons first rest ih =>
    obtain ⟨least, others⟩ := List.pairwise_cons.mp ascending
    rw [insertText]
    split
    next same => exact ascending
    next other =>
      split
      next before =>
        refine List.pairwise_cons.mpr ⟨?_, ascending⟩
        intro path member
        rcases List.mem_cons.mp member with rfl | member
        · exact before
        · exact List.lt_trans before (least path member)
      next notBefore =>
        refine List.pairwise_cons.mpr ⟨?_, ih others⟩
        intro path member
        rcases mem_insertText.mp member with rfl | member
        · refine Decidable.byContradiction fun notAfter => other ?_
          exact List.le_antisymm (List.not_lt.mp notAfter) (List.not_lt.mp notBefore)
        · exact least path member

theorem ascending_sortTexts (texts : List Text) : (sortTexts texts).Pairwise (· < ·) := by
  induction texts with
  | nil => exact List.Pairwise.nil
  | cons first rest ih => exact ascending_insertText ih first

/-- What ascends holds nothing twice. -/
theorem nodup_sortTexts (texts : List Text) : (sortTexts texts).Nodup := by
  refine (ascending_sortTexts texts).imp ?_
  rintro path _ less rfl
  exact List.lt_irrefl path less

/-! ### Walks -/

namespace Workspace

variable {workspace : Workspace}

theorem entryAt_eq_ok_iff {path : Text} {place : Location} {entry : Entry} :
    workspace.entryAt path = .ok (place, entry) ↔
      workspace.locate path = .ok place ∧ workspace.disk.entry? place = some entry := by
  rw [entryAt]
  cases workspace.locate path with
  | error problem => simp
  | ok location =>
    dsimp only
    cases stands : workspace.disk.entry? location with
    | none =>
      simp only [reduceCtorEq, Except.ok.injEq, false_iff, not_and]
      rintro rfl
      simp [stands]
    | some found =>
      simp only [Except.ok.injEq, Prod.mk.injEq]
      constructor
      · rintro ⟨rfl, rfl⟩
        exact ⟨rfl, stands⟩
      · rintro ⟨rfl, same⟩
        exact ⟨rfl, Option.some.inj (stands.symm.trans same)⟩

theorem mem_visits {visit : Visit} {path : Text} {place : Location} {first : Entry} :
    visit ∈ workspace.visits path place first ↔
      visit = ⟨path, place, first⟩ ∨
        first = .directory ∧ (visit.location, visit.entry) ∈ workspace.disk.listed place ∧
          CodeUnit.size (pathBelow path place visit.location.dropLast) ≤ pathLimit ∧
          visit.path = pathBelow path place visit.location := by
  cases first with
  | file content => simp [visits]
  | directory =>
    simp only [visits, List.mem_cons, List.mem_map, List.mem_filter, decide_eq_true_eq, true_and]
    apply or_congr_right
    constructor
    · rintro ⟨⟨location, entry⟩, ⟨listed, short⟩, rfl⟩
      exact ⟨listed, short, rfl⟩
    · obtain ⟨path', location, entry⟩ := visit
      rintro ⟨listed, short, same⟩
      exact ⟨(location, entry), ⟨listed, short⟩, congrArg (Visit.mk · location entry) same.symm⟩

/-- Besides errors, a walk tells of the entries that it comes to. -/
theorem ok_mem_report {visit : Visit} {path : Text} {entry : Entry} :
    .ok (path, entry) ∈ workspace.report visit ↔ visit.path = path ∧ visit.entry = entry := by
  obtain ⟨path', location, first⟩ := visit
  cases first with
  | file content => simp [report, eq_comm]
  | directory =>
    rw [report]
    cases workspace.listingError? path' location <;> simp [eq_comm]

theorem mem_walk_iff_visit {start path : Text} {entry : Entry} :
    .ok (path, entry) ∈ workspace.walk start ↔
      ∃ place first, workspace.entryAt start = .ok (place, first) ∧
        ∃ location, ⟨path, location, entry⟩ ∈ workspace.visits start place first := by
  rw [walk]
  rcases workspace.entryAt start with problem | ⟨place, first⟩
  · simp
  · dsimp only
    rw [List.mem_flatMap]
    constructor
    · rintro ⟨⟨path', location, entry'⟩, visited, told⟩
      obtain ⟨rfl, rfl⟩ := ok_mem_report.mp told
      exact ⟨place, first, rfl, location, visited⟩
    · rintro ⟨place, first, found, location, visited⟩
      cases found
      exact ⟨_, visited, ok_mem_report.mpr ⟨rfl, rfl⟩⟩

/-- A walk comes to an entry by the names that lead there from where the walk starts. -/
theorem exists_names_of_mem_walk (wellFormed : workspace.disk.WellFormed) {start path : Text}
    {entry : Entry} (member : .ok (path, entry) ∈ workspace.walk start) :
    ∃ place names, workspace.target start = .ok place ∧ start ≠ [] ∧
      path = names.foldl Path.join start ∧ (∀ name ∈ names, Path.IsName name) ∧
      (names = [] → workspace.disk.entry? place = some entry) := by
  obtain ⟨place, first, found, location, visited⟩ := mem_walk_iff_visit.mp member
  obtain ⟨located, stands⟩ := entryAt_eq_ok_iff.mp found
  obtain ⟨leads, some⟩ := target_of_locate located
  rcases mem_visits.mp visited with same | ⟨-, listed, -, same⟩
  · -- The walk comes to its start first.
    cases same
    exact ⟨place, [], leads, some, rfl, by simp, fun _ => stands⟩
  · -- Below a directory the path follows the names of the location.
    obtain ⟨below, -⟩ := List.mem_filter.mp listed
    obtain ⟨inTree, inside⟩ := List.mem_filter.mp below
    rw [Bool.and_eq_true, List.isPrefixOf_iff_prefix, decide_eq_true_eq] at inside
    refine ⟨place, location.drop place.length, leads, some, same, ?_, ?_⟩
    · intro name member
      obtain ⟨one, plain, -⟩ := (wellFormed.named _ _ inTree).2 name (List.mem_of_mem_drop member)
      exact ⟨one, plain⟩
    · intro none
      rw [List.drop_eq_nil_iff] at none
      exact absurd inside.2 (Nat.not_lt_of_le none)

end Workspace

/-! ### Scans -/

variable {workspace : Workspace} {base : Text} {filter : Filter}

theorem mem_searchPath {start path : Text} :
    .ok path ∈ searchPath workspace base filter start ↔
      ∃ entry, .ok (path, entry) ∈ workspace.walk start ∧
        isKept base filter path entry = true := by
  rw [searchPath, List.mem_filterMap]
  constructor
  · rintro ⟨item, told, found⟩
    cases item with
    | error failure => cases found
    | ok told' =>
      obtain ⟨path', entry⟩ := told'
      rw [scanItem, Option.ite_none_right_eq_some] at found
      obtain ⟨kept, same⟩ := found
      cases same
      exact ⟨entry, told, kept⟩
  · rintro ⟨entry, told, kept⟩
    refine ⟨_, told, ?_⟩
    rw [scanItem, if_pos kept]

/-- The files found are what is kept of the walks from the places searched. -/
theorem mem_files_scanFiles {path : Text} :
    path ∈ (scanFiles workspace base filter).files ↔
      ∃ start ∈ (resolveIncludes workspace base filter.includes).1, ∃ entry,
        .ok (path, entry) ∈ workspace.walk start ∧ isKept base filter path entry = true := by
  have files : (scanFiles workspace base filter).files =
      sortTexts (((resolveIncludes workspace base filter.includes).1.flatMap
        (searchPath workspace base filter)).filterMap Except.toOption) := rfl
  have found : ∀ item : Except Notice Text, item.toOption = some path ↔ item = .ok path := by
    intro item
    cases item <;> simp [Except.toOption]
  rw [files, mem_sortTexts, List.mem_filterMap]
  simp only [found, exists_eq_right, List.mem_flatMap, mem_searchPath]

theorem file_of_isKept {path : Text} {entry : Entry} (kept : isKept base filter path entry = true) :
    isIgnored base filter.ignores path = false ∧ ∃ content, entry = .file content := by
  cases entry with
  | directory => simp [isKept] at kept
  | file content =>
    rw [isKept.eq_def, Bool.and_eq_true, Bool.not_eq_true'] at kept
    exact ⟨kept.1, content, rfl⟩

theorem exists_walk_of_mem_files_scanFiles {path : Text}
    (found : path ∈ (scanFiles workspace base filter).files) :
    ∃ start ∈ (resolveIncludes workspace base filter.includes).1, ∃ content,
      .ok (path, .file content) ∈ workspace.walk start := by
  obtain ⟨start, searched, entry, member, kept⟩ := mem_files_scanFiles.mp found
  obtain ⟨-, content, rfl⟩ := file_of_isKept kept
  exact ⟨start, searched, content, member⟩

/-- A path that is asked for and leads to a file is found as it is written; it is what a walk from
there comes to. -/
theorem walk_of_isFile {path : Text} (file : workspace.isFile path = true) :
    ∃ content, workspace.walk path = [.ok (path, .file content)] := by
  rw [Workspace.isFile] at file
  split at file
  next place content found =>
    refine ⟨content, ?_⟩
    rw [Workspace.walk, found]
    rfl
  next => cases file

/-- A file is found by a walk from one of the paths that were asked for. -/
theorem exists_walk_of_mem_files_scanPaths {paths : List Text} {path : Text}
    (found : path ∈ (scanPaths workspace filter paths).files) :
    ∃ start ∈ paths, ∃ content, .ok (path, .file content) ∈ workspace.walk start := by
  rw [scanPaths] at found
  dsimp only at found
  rw [mem_sortTexts, List.flatMap_map, List.mem_flatMap] at found
  obtain ⟨start, asked, found⟩ := found
  refine ⟨start, asked, ?_⟩
  rw [scanPath] at found
  split at found
  next file =>
    obtain ⟨content, walked⟩ := walk_of_isFile file
    obtain rfl := List.mem_singleton.mp found
    refine ⟨content, ?_⟩
    rw [walked]
    exact List.mem_singleton_self _
  next =>
    split at found
    next directory =>
      -- A directory is the only place that its scan searches.
      obtain ⟨place, here, content, member⟩ := exists_walk_of_mem_files_scanFiles found
      rw [List.mem_singleton.mp here] at member
      exact ⟨content, member⟩
    next => cases found

end KeyHarvest
