import KeyHarvest.Proofs.Discovered
import Mathlib.Data.List.Sort

/-!
# Directories that are asked for

A directory that is asked for is searched as an include is, with the same patterns, but the ignores
without a wildcard are taken from the directory itself and not from the base
(`files_scanPaths_eq_iff`). Taken from the base, an ignore is compared with the names of the
directory and of the page, and taken from the directory, with those of the page alone
(`isCovered_foldl_join_iff`): so an ignored place is searched when the directory that it lies in is
asked for, and a place that is not ignored can be left out.
-/
namespace KeyHarvest

/-! ### Ordered sets -/

/-- Lists that ascend are the same if they have the same members. -/
theorem eq_iff_of_ascending {texts texts' : List Text} (ascending : texts.Pairwise (· < ·))
    (ascending' : texts'.Pairwise (· < ·)) :
    texts = texts' ↔ ∀ text, text ∈ texts ↔ text ∈ texts' := by
  constructor
  · rintro rfl text
    exact Iff.rfl
  · intro same
    have distinct : ∀ {text text' : Text}, text < text' → text ≠ text' := by
      rintro text _ less rfl
      exact List.lt_irrefl text less
    have permuted := (List.perm_ext_iff_of_nodup (ascending.imp distinct)
      (ascending'.imp distinct)).mpr same
    refine permuted.eq_of_pairwise ?_ ascending ascending'
    intro text text' _ _ before after
    exact absurd after (List.lt_asymm before)

/-! ### Places that ignores stand for -/

namespace Path

/-- Paths that start alike are compared by the components behind that. -/
theorem startsWith_iff {path base : Text} (same : leading path = leading base) :
    startsWith path base = true ↔ inner base <+: inner path := by
  rw [startsWith, List.isPrefixOf_iff_prefix, components_eq, components_eq, same]
  exact List.prefix_append_right_inj _

variable {base directory ignore : Text} {names : List Text}

/-- From the base, an ignore holds if the names of the directory and of the page go on from it. -/
theorem startsWith_base_iff (some : base ≠ []) (within : isAbsolute directory = false)
    (relative : isAbsolute ignore = false) (named : ∀ name ∈ names, IsName name) :
    startsWith (names.foldl join (join base directory)) (join base ignore) = true ↔
      inner ignore <+: inner directory ++ names.map .name := by
  have same : leading (names.foldl join (join base directory)) = leading (join base ignore) := by
    rw [leading_foldl_join (join_ne_nil some within) named, leading_join some within,
      leading_join some relative]
  rw [startsWith_iff same, inner_foldl_join _ named, inner_join base within,
    inner_join base relative, List.append_assoc]
  exact List.prefix_append_right_inj _

/-- From the directory, an ignore holds if the names of the page alone go on from it. -/
theorem startsWith_directory_iff (some : directory ≠ []) (relative : isAbsolute ignore = false)
    (named : ∀ name ∈ names, IsName name) :
    startsWith (names.foldl join directory) (join directory ignore) = true ↔
      inner ignore <+: names.map .name := by
  have same : leading (names.foldl join directory) = leading (join directory ignore) := by
    rw [leading_foldl_join some named, leading_join some relative]
  rw [startsWith_iff same, inner_foldl_join _ named, inner_join _ relative]
  exact List.prefix_append_right_inj _

end Path

/-- An ignore without a wildcard, taken from a directory, holds for the path. -/
def IsCovered (directory : Text) (ignores : List Text) (path : Text) : Prop :=
  ∃ ignore ∈ ignores, Glob.hasWildcard ignore = false ∧
    Path.startsWith path (Path.join directory ignore) = true

instance (directory : Text) (ignores : List Text) (path : Text) :
    Decidable (IsCovered directory ignores path) :=
  inferInstanceAs (Decidable (∃ ignore ∈ ignores, _))

/-- Of a page below a directory, an ignore is compared with the names of both when it is taken from
the base, and with the names of the page alone when it is taken from the directory. -/
theorem isCovered_foldl_join_iff {base directory : Text} {ignores names : List Text}
    (some : base ≠ []) (within : Path.isAbsolute directory = false)
    (relative : ∀ ignore ∈ ignores, Path.isAbsolute ignore = false)
    (named : ∀ name ∈ names, Path.IsName name) :
    let page := names.foldl Path.join (Path.join base directory)
    (IsCovered base ignores page ↔ ∃ ignore ∈ ignores, Glob.hasWildcard ignore = false ∧
        Path.inner ignore <+: Path.inner directory ++ names.map .name) ∧
      (IsCovered (Path.join base directory) ignores page ↔
        ∃ ignore ∈ ignores, Glob.hasWildcard ignore = false ∧
          Path.inner ignore <+: names.map .name) := by
  constructor
  · refine exists_congr fun ignore => and_congr_right fun listed => and_congr_right fun _ => ?_
    exact Path.startsWith_base_iff some within (relative ignore listed) named
  · refine exists_congr fun ignore => and_congr_right fun listed => and_congr_right fun _ => ?_
    exact Path.startsWith_directory_iff (Path.join_ne_nil some within) (relative ignore listed)
      named

/-- The ignores of a filter that have a wildcard, with the same extensions. -/
def Filter.patternsOnly (filter : Filter) : Filter :=
  { filter with includes := [], ignores := filter.ignores.filter Glob.hasWildcard }

variable {workspace : Workspace} {base directory path : Text} {filter : Filter}

theorem isIgnored_eq_false_iff {ignores : List Text} :
    isIgnored base ignores path = false ↔
      (ignorePatterns ignores).any (Glob.matchTokens · path) = false ∧
        ¬ IsCovered base ignores path := by
  have literal : (ignoredPaths base ignores).any (Path.startsWith path) = true ↔
      IsCovered base ignores path := by
    rw [ignoredPaths, List.any_map, List.any_filter, List.any_eq_true, IsCovered]
    simp only [Function.comp_apply, Bool.and_eq_true, Bool.not_eq_true']
  rw [isIgnored, Bool.or_eq_false_iff, ← literal, Bool.not_eq_true]
  exact and_comm

/-- What a walk keeps is kept with the patterns alone, and not covered. -/
theorem isKept_iff (start : Text) {entry : Entry} :
    isKept base filter path entry = true ↔
      isKept start filter.patternsOnly path entry = true ∧
        ¬ IsCovered base filter.ignores path := by
  have patterns : ignorePatterns filter.patternsOnly.ignores = ignorePatterns filter.ignores := by
    simp [ignorePatterns, Filter.patternsOnly]
  -- No ignore without a wildcard is left, wherever it would be taken from.
  have uncovered : ¬ IsCovered start filter.patternsOnly.ignores path := by
    rintro ⟨ignore, listed, plain, -⟩
    have wild := (List.mem_filter.mp listed).2
    rw [plain] at wild
    cases wild
  rw [isKept.eq_def, isKept.eq_def, Bool.and_eq_true, Bool.and_eq_true, Bool.not_eq_true',
    Bool.not_eq_true', isIgnored_eq_false_iff, isIgnored_eq_false_iff, patterns]
  simp only [uncovered, not_false_eq_true, and_true]
  exact and_right_comm

/-! ### Scans of one directory -/

/-- A scan that searches one place finds what the patterns leave there, apart from what is
covered. -/
theorem mem_files_scanFiles_of_place {includes : List Text} {place : Text}
    (searched : (resolveIncludes workspace base includes).1 = [place]) :
    path ∈ (scanFiles workspace base { filter with includes := includes }).files ↔
      path ∈ (scanFiles workspace place filter.patternsOnly).files ∧
        ¬ IsCovered base filter.ignores path := by
  have alone : (resolveIncludes workspace place filter.patternsOnly.includes).1 = [place] := rfl
  rw [mem_files_scanFiles, mem_files_scanFiles, alone, searched]
  simp only [List.mem_singleton, exists_eq_left]
  constructor
  · rintro ⟨entry, member, kept⟩
    obtain ⟨left, uncovered⟩ := (isKept_iff place).mp kept
    exact ⟨⟨entry, member, left⟩, uncovered⟩
  · rintro ⟨⟨entry, member, left⟩, uncovered⟩
    exact ⟨entry, member, (isKept_iff place).mpr ⟨left, uncovered⟩⟩

theorem resolveIncludes_singleton (plain : Glob.hasWildcard directory = false)
    (stands : workspace.isDirectory (Path.join base directory) = true) :
    (resolveIncludes workspace base [directory]).1 = [Path.join base directory] := by
  have present : workspace.isPresent (Path.join base directory) = true := by
    rw [Workspace.isDirectory] at stands
    split at stands
    next found => rw [Workspace.isPresent, found]; rfl
    next => cases stands
  simp [resolveIncludes, resolveInclude, plain, present]

/-- A directory that is asked for is the only place that its scan searches. -/
theorem mem_files_scanPaths_singleton (stands : workspace.isDirectory directory = true) :
    path ∈ (scanPaths workspace filter [directory]).files ↔
      path ∈ (scanFiles workspace directory { filter with includes := [] }).files := by
  have notFile : workspace.isFile directory = false := by
    rw [Workspace.isDirectory] at stands
    split at stands
    next found => rw [Workspace.isFile, found]
    next => cases stands
  have single : scanPath workspace filter directory =
      scanFiles workspace directory { filter with includes := [] } := by
    rw [scanPath, notFile, stands]
    rfl
  rw [scanPaths, mem_sortTexts, List.map_singleton, List.flatMap_singleton, single]

/-- The files of a directory are the same whether it is asked for or included, exactly if the
ignores without a wildcard hold for the same pages when they are taken from the directory and when
they are taken from the base. With patterns alone that is so. -/
theorem files_scanPaths_eq_iff (workspace : Workspace) (base directory : Text) (filter : Filter)
    (plain : Glob.hasWildcard directory = false)
    (stands : workspace.isDirectory (Path.join base directory) = true) :
    let asked := Path.join base directory
    let included := scanFiles workspace base { filter with includes := [directory] }
    ((scanPaths workspace filter [asked]).files = included.files ↔
      ∀ page ∈ (scanFiles workspace asked filter.patternsOnly).files,
        IsCovered asked filter.ignores page ↔ IsCovered base filter.ignores page) ∧
      ((∀ ignore ∈ filter.ignores, Glob.hasWildcard ignore = true) →
        (scanPaths workspace filter [asked]).files = included.files) := by
  intro asked included
  have exactly : (scanPaths workspace filter [asked]).files = included.files ↔
      ∀ page ∈ (scanFiles workspace asked filter.patternsOnly).files,
        IsCovered asked filter.ignores page ↔ IsCovered base filter.ignores page := by
    have searched := resolveIncludes_singleton plain stands
    have ascending : (scanPaths workspace filter [asked]).files.Pairwise (· < ·) :=
      ascending_sortTexts _
    have ascending' : included.files.Pairwise (· < ·) := ascending_sortTexts _
    rw [eq_iff_of_ascending ascending ascending']
    refine forall_congr' fun page => ?_
    rw [mem_files_scanPaths_singleton stands, mem_files_scanFiles_of_place rfl,
      mem_files_scanFiles_of_place searched]
    -- Both scans leave the same pages but for those that are covered.
    rw [and_congr_right_iff, not_iff_not]
  refine ⟨exactly, fun patterns => exactly.mpr fun page _ => ?_⟩
  have uncovered : ∀ place, ¬ IsCovered place filter.ignores page := by
    rintro place ⟨ignore, listed, plain, -⟩
    rw [patterns ignore listed] at plain
    cases plain
  exact iff_of_false (uncovered asked) (uncovered base)

/-- A page and a directory with a page, in a directory. -/
def generatedPages : Workspace :=
  ⟨⟨[(["web".toList], .directory), (["web".toList, "y.html".toList], .file []),
    (["web".toList, "gen".toList], .directory),
    (["web".toList, "gen".toList, "x.html".toList], .file [])], []⟩, []⟩

/-- A pattern for the inner directory, and an ignore without a wildcard for no page. -/
def ignoringGenerated : Filter := ⟨[], ["**/gen/*".toList, "lib".toList], ["html".toList]⟩

theorem files_scanPaths_generatedPages :
    let base := ".".toList
    let directory := "web".toList
    let asked := Path.join base directory
    Glob.hasWildcard directory = false ∧ generatedPages.isDirectory asked = true ∧
      (scanPaths generatedPages ignoringGenerated [asked]).files = ["./web/y.html".toList] ∧
      (scanFiles generatedPages base { ignoringGenerated with includes := [directory] }).files =
        ["./web/y.html".toList] := by
  intro base directory asked
  have plain : Glob.hasWildcard directory = false := by decide +kernel
  have stands : generatedPages.isDirectory asked = true := by decide +kernel
  obtain ⟨exactly, -⟩ :=
    files_scanPaths_eq_iff generatedPages base directory ignoringGenerated plain stands
  have same := exactly.mpr (by decide +kernel)
  have found : (scanPaths generatedPages ignoringGenerated [asked]).files =
      ["./web/y.html".toList] := by decide +kernel
  exact ⟨plain, stands, found, same.symm.trans found⟩

/-- The ignored directory `web/gen` is searched when `web` is asked for. -/
theorem not_files_scanPaths_eq :
    ¬ ∀ (workspace : Workspace) (base directory : Text) (filter : Filter),
      workspace.disk.WellFormed → Glob.hasWildcard directory = false →
        workspace.isDirectory (Path.join base directory) = true →
        (scanPaths workspace filter [Path.join base directory]).files =
          (scanFiles workspace base { filter with includes := [directory] }).files := by
  intro same
  have files := same generatedPages ".".toList "web".toList
    ⟨[], ["web/gen".toList], ["html".toList]⟩ (by decide +kernel) (by decide +kernel)
    (by decide +kernel)
  exact absurd files (by decide +kernel)

end KeyHarvest
