import KeyHarvest.Proofs.AskedDirectories
import KeyHarvest.Proofs.ExitStatus
import Mathlib.Data.Set.Basic

/-!
# How the members of a filter act together

Every member of a filter acts on its own: a file is found if one of the includes stands for a place
with the file, no ignore holds for it and one of the extensions is its own
(`mem_files_scanFiles_iff`, `holdsFile_iff`). So longer lists of includes or extensions find the
union of what their parts find, longer lists of ignores the intersection, and neither order nor
repetition plays a part (`found_scanFiles_append`). What the walks fail at is counted for each
include, also where two of them come to the same place. Only the empty list of includes is apart: it
stands for the base itself, where a longer list does not.
-/
namespace KeyHarvest

/-- The files that a scan found, without their order. -/
def Scan.found (scan : Scan) : Set Text := {path | path ∈ scan.files}

variable {workspace : Workspace} {base path : Text} {filter filter' : Filter}

/-! ### Includes -/

theorem resolveIncludes_of_ne_nil {includes : List Text} (some : includes ≠ []) :
    (resolveIncludes workspace base includes).1 =
      includes.flatMap fun pattern => (resolveInclude workspace base pattern).1 := by
  rw [resolveIncludes, if_neg (by simpa using some)]
  exact List.flatMap_map ..

theorem resolveIncludes_append {includes includes' : List Text} (some : includes ≠ [])
    (some' : includes' ≠ []) :
    (resolveIncludes workspace base (includes ++ includes')).1 =
      (resolveIncludes workspace base includes).1 ++
        (resolveIncludes workspace base includes').1 := by
  rw [resolveIncludes_of_ne_nil some, resolveIncludes_of_ne_nil some', ← List.flatMap_append]
  apply resolveIncludes_of_ne_nil
  exact List.append_ne_nil_of_left_ne_nil some includes'

/-- The includes stand for a place from which a walk comes to a file by this path. -/
def HoldsFile (workspace : Workspace) (base : Text) (includes : List Text) (path : Text) : Prop :=
  ∃ start ∈ (resolveIncludes workspace base includes).1, ∃ content,
    .ok (path, .file content) ∈ workspace.walk start

/-- Each include stands for its places, whatever the others are. -/
theorem holdsFile_iff {includes : List Text} (some : includes ≠ []) :
    HoldsFile workspace base includes path ↔
      ∃ pattern ∈ includes, HoldsFile workspace base [pattern] path := by
  have alone (pattern : Text) : (resolveIncludes workspace base [pattern]).1 =
      (resolveInclude workspace base pattern).1 := by
    rw [resolveIncludes_of_ne_nil (List.cons_ne_nil pattern []), List.flatMap_singleton]
  simp only [HoldsFile, alone, resolveIncludes_of_ne_nil some, List.mem_flatMap]
  constructor
  · rintro ⟨start, ⟨pattern, listed, stands⟩, found⟩
    exact ⟨pattern, listed, start, stands, found⟩
  · rintro ⟨pattern, listed, start, stands, found⟩
    exact ⟨start, ⟨pattern, listed, stands⟩, found⟩

/-! ### Ignores -/

/-- Each ignore holds for its paths, whatever the others are, and one that is no valid pattern holds
for none. -/
theorem isIgnored_iff {ignores : List Text} :
    isIgnored base ignores path = true ↔ ∃ ignore ∈ ignores, isIgnored base [ignore] path = true := by
  induction ignores with
  | nil => simp [isIgnored, ignoredPaths, ignorePatterns]
  | cons ignore ignores ih =>
    have split : isIgnored base (ignore :: ignores) path =
        (isIgnored base [ignore] path || isIgnored base ignores path) := by
      have patterns : ignorePatterns (ignore :: ignores) =
          ignorePatterns [ignore] ++ ignorePatterns ignores := by
        rw [ignorePatterns, ← List.singleton_append, List.filter_append, List.filterMap_append]
        rfl
      have paths : ignoredPaths base (ignore :: ignores) =
          ignoredPaths base [ignore] ++ ignoredPaths base ignores := by
        rw [ignoredPaths, ← List.singleton_append, List.filter_append, List.map_append]
        rfl
      rw [isIgnored, isIgnored, isIgnored, patterns, paths, List.any_append, List.any_append]
      ac_rfl
    rw [split, Bool.or_eq_true, ih, List.exists_mem_cons_iff]

/-! ### Extensions -/

theorem hasExtension_iff {extensions : List Text} :
    hasExtension extensions path = true ↔
      ∃ extension ∈ extensions, Path.extension? path = some extension := by
  rw [hasExtension]
  cases Path.extension? path with
  | none => simp
  | some extension => simp

/-! ### Scans -/

/-- A scan finds the files that the includes lead to, that no ignore holds for and that have one of
the extensions. -/
theorem mem_files_scanFiles_iff :
    path ∈ (scanFiles workspace base filter).files ↔
      HoldsFile workspace base filter.includes path ∧
        (∀ ignore ∈ filter.ignores, ¬ isIgnored base [ignore] path = true) ∧
          ∃ extension ∈ filter.extensions, Path.extension? path = some extension := by
  have spared : (∀ ignore ∈ filter.ignores, ¬ isIgnored base [ignore] path = true) ↔
      isIgnored base filter.ignores path = false := by
    rw [← Bool.not_eq_true, isIgnored_iff, not_exists]
    exact forall_congr' fun ignore => not_and.symm
  rw [spared, ← hasExtension_iff, mem_files_scanFiles]
  constructor
  · rintro ⟨start, stands, entry, member, kept⟩
    obtain ⟨unignored, content, rfl⟩ := file_of_isKept kept
    rw [isKept, unignored] at kept
    exact ⟨⟨start, stands, content, member⟩, unignored, kept⟩
  · rintro ⟨⟨start, stands, content, member⟩, unignored, extended⟩
    refine ⟨start, stands, .file content, member, ?_⟩
    rw [isKept, unignored]
    exact extended

/-- Both filters list the same includes, ignores and extensions, in whatever order and however
often. -/
structure Filter.SameMembers (filter filter' : Filter) : Prop where
  includes : ∀ pattern, pattern ∈ filter.includes ↔ pattern ∈ filter'.includes
  ignores : ∀ ignore, ignore ∈ filter.ignores ↔ ignore ∈ filter'.ignores
  extensions : ∀ extension, extension ∈ filter.extensions ↔ extension ∈ filter'.extensions

theorem holdsFile_congr {includes includes' : List Text}
    (same : ∀ pattern, pattern ∈ includes ↔ pattern ∈ includes') :
    HoldsFile workspace base includes path ↔ HoldsFile workspace base includes' path := by
  by_cases none : includes = []
  · -- Without includes on one side there are none on the other.
    subst none
    have none' : includes' = [] := by
      apply List.eq_nil_iff_forall_not_mem.mpr
      exact fun pattern listed => List.not_mem_nil ((same pattern).mpr listed)
    rw [none']
  · have some' : includes' ≠ [] := by
      obtain ⟨pattern, listed⟩ := List.exists_mem_of_ne_nil includes none
      exact List.ne_nil_of_mem ((same pattern).mp listed)
    rw [holdsFile_iff none, holdsFile_iff some']
    exact exists_congr fun pattern => and_congr_left' (same pattern)

theorem Filter.SameMembers.files (same : filter.SameMembers filter') :
    (scanFiles workspace base filter').files = (scanFiles workspace base filter).files := by
  have ascending (filter : Filter) : (scanFiles workspace base filter).files.Pairwise (· < ·) :=
    ascending_sortTexts _
  rw [eq_iff_of_ascending (ascending filter') (ascending filter)]
  intro path
  rw [mem_files_scanFiles_iff, mem_files_scanFiles_iff]
  apply and_congr
  · exact (holdsFile_congr same.includes).symm
  · apply and_congr
    · exact forall_congr' fun ignore => imp_congr_left (same.ignores ignore).symm
    · exact exists_congr fun extension => and_congr_left' (same.extensions extension).symm

/-- With the other members of a filter as they are, includes of two lists find the union of the
files of both and skip as much as both, ignores of two lists leave the intersection, and extensions
of two lists find the union. The order and the repetition of members play no part, and more ignores
never find more. -/
theorem found_scanFiles_append (workspace : Workspace) (base : Text) (filter : Filter) :
    (∀ includes includes' : List Text, includes ≠ [] → includes' ≠ [] →
      let scan (includes : List Text) := scanFiles workspace base { filter with includes }
      (scan (includes ++ includes')).found = (scan includes).found ∪ (scan includes').found ∧
        (scan (includes ++ includes')).skipped =
          (scan includes).skipped + (scan includes').skipped) ∧
    (∀ ignores ignores' : List Text,
      let scan (ignores : List Text) := scanFiles workspace base { filter with ignores }
      (scan (ignores ++ ignores')).found = (scan ignores).found ∩ (scan ignores').found ∧
        (ignores ⊆ ignores' → (scan ignores').found ⊆ (scan ignores).found)) ∧
    (∀ extensions extensions' : List Text,
      let scan (extensions : List Text) := scanFiles workspace base { filter with extensions }
      (scan (extensions ++ extensions')).found =
        (scan extensions).found ∪ (scan extensions').found) ∧
    ∀ filter' : Filter, filter.SameMembers filter' →
      (scanFiles workspace base filter').files = (scanFiles workspace base filter).files := by
  have found (filter : Filter) (path : Text) :
      path ∈ (scanFiles workspace base filter).found ↔ _ := mem_files_scanFiles_iff
  refine ⟨?includes, ?ignores, ?extensions, fun filter' same => same.files⟩
  case includes =>
    intro includes includes' some some' scan
    constructor
    · ext path
      rw [Set.mem_union, found, found, found, ← or_and_right]
      apply and_congr_left'
      have both : includes ++ includes' ≠ [] := List.append_ne_nil_of_left_ne_nil some includes'
      rw [holdsFile_iff both, holdsFile_iff some, holdsFile_iff some']
      simp only [List.mem_append, or_and_right, exists_or]
    · -- The walks of both lists, one after the other, fail where each of them does.
      rw [skipped_scanFiles, skipped_scanFiles, skipped_scanFiles, ← List.countP_append,
        ← List.flatMap_append, resolveIncludes_append some some']
  case ignores =>
    intro ignores ignores' scan
    constructor
    · ext path
      rw [Set.mem_inter_iff, found, found, found]
      simp only [List.mem_append, or_imp, forall_and]
      tauto
    · intro fewer path kept
      rw [found] at kept ⊢
      obtain ⟨holds, spared, extended⟩ := kept
      exact ⟨holds, fun ignore listed => spared ignore (fewer listed), extended⟩
  case extensions =>
    intro extensions extensions' scan
    ext path
    rw [Set.mem_union, found, found, found, ← and_or_left, ← and_or_left]
    simp only [List.mem_append, or_and_right, exists_or]

/-- A page and two directories in a directory: one of them holds a page, the other is closed. -/
def pagesBesideClosed : Workspace :=
  ⟨⟨(["web".toList, "own".toList], .directory) :: generatedPages.disk.entries,
    [["web".toList, "own".toList]]⟩, []⟩

/-- A literal include and a wildcard that lead to the same page and past the same closed directory,
and patterns for pages. -/
theorem found_scanFiles_append_pagesBesideClosed :
    let literal := ["web".toList]
    let wild := ["w?b".toList]
    let patterns := ["**/gen/*".toList]
    let filter : Filter := ⟨literal ++ wild, ["lib".toList], ["html".toList]⟩
    let scan (filter : Filter) := scanFiles pagesBesideClosed [] filter
    literal ≠ [] ∧ wild ≠ [] ∧
      (scan filter).files = ["web/gen/x.html".toList, "web/y.html".toList] ∧
      (scan filter).found = (scan { filter with includes := literal }).found ∪
        (scan { filter with includes := wild }).found ∧
      (scan { filter with includes := literal }).skipped = 1 ∧
      (scan { filter with includes := wild }).skipped = 1 ∧ (scan filter).skipped = 2 ∧
      filter.ignores ⊆ patterns ++ filter.ignores ∧
      (scan { filter with ignores := patterns ++ filter.ignores }).found ⊆ (scan filter).found ∧
      filter.SameMembers { filter with includes := wild ++ literal ++ wild } ∧
      (scan { filter with includes := wild ++ literal ++ wild }).files = (scan filter).files := by
  intro literal wild patterns filter scan
  obtain ⟨includes, ignores, -, order⟩ := found_scanFiles_append pagesBesideClosed [] filter
  have some : literal ≠ [] := List.cons_ne_nil _ _
  have some' : wild ≠ [] := List.cons_ne_nil _ _
  obtain ⟨union, sum⟩ := includes literal wild some some'
  have once : (scan { filter with includes := literal }).skipped = 1 := by decide +kernel
  have once' : (scan { filter with includes := wild }).skipped = 1 := by decide +kernel
  have twice : (scan filter).skipped = 2 := by
    rw [once, once'] at sum
    exact sum
  have fewer : filter.ignores ⊆ patterns ++ filter.ignores := List.subset_append_right _ _
  have same : filter.SameMembers { filter with includes := wild ++ literal ++ wild } := by
    refine ⟨fun pattern => ?_, fun _ => Iff.rfl, fun _ => Iff.rfl⟩
    simp only [filter, List.mem_append]
    tauto
  exact ⟨some, some', by decide +kernel, union, once, once', twice, fewer, (ignores _ _).2 fewer,
    same, order _ same⟩

end KeyHarvest
