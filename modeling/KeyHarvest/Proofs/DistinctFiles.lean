import KeyHarvest.Proofs.Discovered
import Mathlib.Data.List.Basic

/-!
# Files are found once

A scan tells paths apart by how they are written, so a file is found once for each way in which the
walks that come to it write it. Two walks from places that are spelled alike write it the same
(`Workspace.eq_of_mem_walk`), and so no file is found twice where all places searched are spelled
alike (`foundOnce_of_walks`). From places that are spelled differently a file can be found twice.
-/
namespace KeyHarvest

namespace Path

theorem not_isOpen_join {name : Text} (named : IsName name) (base : Text) :
    ¬ IsOpen (join base name) := by
  obtain ⟨some, -, -, plain⟩ := isName_iff.mp named
  rw [join_eq named.isAbsolute]
  rintro (empty | last)
  · exact some (List.append_eq_nil_iff.mp empty).2
  · rw [List.getLast?_append_of_ne_nil _ some] at last
    exact plain (List.mem_of_getLast? last)

/-- Paths without a separator at the end are the same if they are the same with one. -/
theorem join_nil_inj {path path' : Text} (closed : ¬ IsOpen path) (closed' : ¬ IsOpen path')
    (same : join path [] = join path' []) : path = path' := by
  rw [join_of_not_isOpen rfl closed, join_of_not_isOpen rfl closed'] at same
  exact List.append_cancel_right same

end Path

/-- Only a directory can be followed by a separator at the end. -/
theorem Disk.directory_of_follow {disk : Disk} {location place : Location} {names : List Text}
    (leads : disk.follow location (names ++ [[]]) = .ok place) :
    disk.entry? place = some .directory := by
  rw [follow_append] at leads
  cases before : disk.follow location names with
  | error problem =>
    rw [before] at leads
    cases leads
  | ok last =>
    rw [before] at leads
    change disk.follow last [[]] = .ok place at leads
    rw [follow] at leads
    split at leads
    · cases leads
    · cases leads
    next directory =>
      rw [if_pos (.inl rfl)] at leads
      cases leads
      exact directory

namespace Workspace

variable {workspace : Workspace}

/-- A path that leads to a file has no separator at the end. -/
theorem not_isOpen_of_file {path : Text} {place : Location} {content : List UInt8}
    (nonempty : path ≠ []) (leads : workspace.target path = .ok place)
    (stands : workspace.disk.entry? place = some (.file content)) : ¬ Path.IsOpen path := by
  rintro (empty | last)
  · exact nonempty empty
  · obtain ⟨before, rfl⟩ := List.getLast?_eq_some_iff.mp last
    rw [target, Path.pieces_append] at leads
    rw [Disk.directory_of_follow leads] at stands
    cases stands

/-- A file that a walk comes to is written without a separator at the end. -/
theorem not_isOpen_of_names {start : Text} {place : Location} {names : List Text}
    {content : List UInt8} (nonempty : start ≠ []) (leads : workspace.target start = .ok place)
    (named : ∀ name ∈ names, Path.IsName name)
    (stands : names = [] → workspace.disk.entry? place = some (.file content)) :
    ¬ Path.IsOpen (names.foldl Path.join start) := by
  rcases List.eq_nil_or_concat names with rfl | ⟨before, last, rfl⟩
  · exact not_isOpen_of_file nonempty leads (stands rfl)
  · rw [List.concat_eq_append, List.foldl_append]
    exact Path.not_isOpen_join (named last (by simp)) _

/-- The names behind the inner place are joined to the same text, whether the walk starts there or
at the outer place. -/
theorem foldl_join_eq {outer inner : Text} {between names : List Text}
    (same : Path.join (between.foldl Path.join outer) [] = Path.join inner [])
    (named : ∀ name ∈ names, Path.IsName name)
    (closed : ¬ Path.IsOpen ((between ++ names).foldl Path.join outer))
    (closed' : ¬ Path.IsOpen (names.foldl Path.join inner)) :
    (between ++ names).foldl Path.join outer = names.foldl Path.join inner := by
  rw [List.foldl_append] at closed ⊢
  cases names with
  | nil => exact Path.join_nil_inj closed closed' same
  | cons name names =>
    -- A name is joined behind a separator, so it does not matter whether there is one already.
    have relative := (named name List.mem_cons_self).isAbsolute
    rw [List.foldl_cons, List.foldl_cons, Path.join_eq relative, same, ← Path.join_eq relative]

/-- Two walks from places that are spelled alike write a file that both come to the same. -/
theorem eq_of_mem_walk (wellFormed : workspace.disk.WellFormed) {start start' path path' : Text}
    {content content' : List UInt8} (walked : .ok (path, .file content) ∈ workspace.walk start)
    (walked' : .ok (path', .file content') ∈ workspace.walk start')
    (same : workspace.SamePlace path path') (alike : workspace.SpelledAlike start start')
    (alike' : workspace.SpelledAlike start' start) : path = path' := by
  obtain ⟨place, names, leads, nonempty, rfl, named, stands⟩ :=
    exists_names_of_mem_walk wellFormed walked
  obtain ⟨place', names', leads', nonempty', rfl, named', stands'⟩ :=
    exists_names_of_mem_walk wellFormed walked'
  obtain ⟨file, there, there'⟩ := same
  have closed := not_isOpen_of_names nonempty leads named stands
  have closed' := not_isOpen_of_names nonempty' leads' named' stands'
  -- Both places are above the file, so one of them is at or below the other.
  have whole := eq_of_target_foldl_join named leads there
  have whole' := eq_of_target_foldl_join named' leads' there'
  rcases List.append_eq_append_iff.mp (whole.symm.trans whole') with
    ⟨between, rfl, rfl⟩ | ⟨between, rfl, rfl⟩
  · exact foldl_join_eq (alike _ _ leads leads') named' closed closed'
  · exact (foldl_join_eq (alike' _ _ leads' leads) named closed' closed).symm

end Workspace

/-! ### Scans -/

/-- Paths that are written differently lead to different files. -/
def FoundOnce (workspace : Workspace) (files : List Text) : Prop :=
  ∀ path ∈ files, ∀ path' ∈ files, workspace.SamePlace path path' → path = path'

/-- Of each two places searched, one in the other, the inner one is spelled as the outer one goes
on. -/
def AllSpelledAlike (workspace : Workspace) (places : List Text) : Prop :=
  ∀ outer ∈ places, ∀ inner ∈ places, workspace.SpelledAlike outer inner

instance (workspace : Workspace) (places : List Text) :
    Decidable (AllSpelledAlike workspace places) :=
  inferInstanceAs (Decidable (∀ outer ∈ places, ∀ inner ∈ places, _))

theorem foundOnce_of_walks {workspace : Workspace} (wellFormed : workspace.disk.WellFormed)
    {places files : List Text} (alike : AllSpelledAlike workspace places)
    (walks : ∀ path ∈ files, ∃ start ∈ places, ∃ content,
      .ok (path, .file content) ∈ workspace.walk start) : FoundOnce workspace files := by
  intro path found path' found' same
  obtain ⟨start, searched, content, walked⟩ := walks path found
  obtain ⟨start', searched', content', walked'⟩ := walks path' found'
  exact Workspace.eq_of_mem_walk wellFormed walked walked' same
    (alike start searched start' searched') (alike start' searched' start searched)

/-- No path is found twice, neither by a scan of includes nor by a scan of paths that were asked
for, and where the places searched are spelled alike, no file is. -/
theorem foundOnce_of_allSpelledAlike (workspace : Workspace) (base : Text) (filter : Filter)
    (paths : List Text) (wellFormed : workspace.disk.WellFormed) :
    (scanFiles workspace base filter).files.Nodup ∧
      (scanPaths workspace filter paths).files.Nodup ∧
      (AllSpelledAlike workspace (resolveIncludes workspace base filter.includes).1 →
        FoundOnce workspace (scanFiles workspace base filter).files) ∧
      (AllSpelledAlike workspace paths →
        FoundOnce workspace (scanPaths workspace filter paths).files) := by
  refine ⟨nodup_sortTexts _, nodup_sortTexts _, ?_, ?_⟩
  · intro alike
    exact foundOnce_of_walks wellFormed alike fun path => exists_walk_of_mem_files_scanFiles
  · intro alike
    exact foundOnce_of_walks wellFormed alike fun path => exists_walk_of_mem_files_scanPaths

/-- A directory in a directory, with a page in each. -/
def nestedPages : Workspace :=
  ⟨⟨[(["w".toList], .directory), (["w".toList, "a".toList], .directory),
    (["w".toList, "a".toList, "b".toList], .directory),
    (["w".toList, "a".toList, "x.html".toList], .file []),
    (["w".toList, "a".toList, "b".toList, "y.html".toList], .file [])], []⟩, []⟩

/-- A directory, a directory in it, and a pattern that both of them match. -/
def overlappingIncludes : Filter :=
  ⟨["a".toList, "a/b".toList, "**".toList], [], ["html".toList]⟩

def overlappingPaths : List Text := ["w/a/x.html".toList, "w/a".toList, "w/".toList]

theorem foundOnce_nestedPages :
    let scanned := (scanFiles nestedPages "w".toList overlappingIncludes).files
    let asked := (scanPaths nestedPages overlappingIncludes overlappingPaths).files
    scanned = ["w/a/b/y.html".toList, "w/a/x.html".toList] ∧
      asked = ["w/a/b/y.html".toList, "w/a/x.html".toList] ∧
      AllSpelledAlike nestedPages
        (resolveIncludes nestedPages "w".toList overlappingIncludes.includes).1 ∧
      AllSpelledAlike nestedPages overlappingPaths ∧
      FoundOnce nestedPages scanned ∧ FoundOnce nestedPages asked := by
  intro scanned asked
  have wellFormed : nestedPages.disk.WellFormed := by decide +kernel
  have alike : AllSpelledAlike nestedPages
      (resolveIncludes nestedPages "w".toList overlappingIncludes.includes).1 := by
    decide +kernel
  have alike' : AllSpelledAlike nestedPages overlappingPaths := by decide +kernel
  obtain ⟨-, -, once, once'⟩ := foundOnce_of_allSpelledAlike nestedPages "w".toList overlappingIncludes
    overlappingPaths wellFormed
  exact ⟨by decide +kernel, by decide +kernel, alike, alike', once alike, once' alike'⟩

def onePage : Workspace := ⟨⟨[(["a.html".toList], .file [])], []⟩, []⟩

/-- A file that is asked for twice, once behind `./`, is found twice. -/
theorem not_foundOnce :
    ¬ ∀ (workspace : Workspace) (base : Text) (filter : Filter) (paths : List Text),
      workspace.disk.WellFormed →
        FoundOnce workspace (scanFiles workspace base filter).files ∧
          FoundOnce workspace (scanPaths workspace filter paths).files := by
  intro once
  have asked := (once onePage [] ⟨[], [], []⟩ ["a.html".toList, "./a.html".toList]
    (by decide +kernel)).2
  have same := asked "a.html".toList (by decide +kernel) "./a.html".toList (by decide +kernel)
    ⟨["a.html".toList], rfl, rfl⟩
  exact absurd same (by decide +kernel)

end KeyHarvest
