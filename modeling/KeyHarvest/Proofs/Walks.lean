import KeyHarvest.Proofs.LeadingPaths

/-!
# Walks

A walk comes to an entry below its start exactly if all directories on the way there can be listed
(`Workspace.mem_walk_iff`). It fails where its start leads nowhere, or else at each directory that
it comes to and cannot list (`Workspace.countP_walk`), and goes on from there.
-/
namespace KeyHarvest

namespace Path

theorem size_le_join {base path : Text} (relative : isAbsolute path = false) :
    CodeUnit.size base ≤ CodeUnit.size (join base path) := by
  by_cases ends : IsOpen base
  · rw [join_of_isOpen relative ends, CodeUnit.size_append]
    exact Nat.le_add_right _ _
  · rw [join_of_not_isOpen relative ends, CodeUnit.size_append]
    exact Nat.le_add_right _ _

/-- A path is not longer than one that goes on from it by names. -/
theorem size_foldl_join_le {base : Text} {front names : List Text} (before : front <+: names)
    (named : ∀ name ∈ names, IsName name) :
    CodeUnit.size (front.foldl join base) ≤ CodeUnit.size (names.foldl join base) := by
  obtain ⟨others, rfl⟩ := before
  rw [List.foldl_append]
  generalize front.foldl join base = path
  have later : ∀ name ∈ others, IsName name := fun name member =>
    named name (List.mem_append_right front member)
  clear named
  induction others generalizing path with
  | nil => exact Nat.le_refl _
  | cons name others ih =>
    obtain ⟨first, others⟩ := List.forall_mem_cons.mp later
    apply Nat.le_trans (size_le_join first.isAbsolute)
    exact ih (join path name) others

end Path

namespace Disk

variable {disk : Disk} {place location : Location} {names : List Text} {entry : Entry}

theorem isOpenTo_iff :
    disk.isOpenTo place location = true ↔
      ∀ directory ∈ disk.closed, place <+: directory → directory <+: location →
        directory = location := by
  rw [isOpenTo, List.all_eq_true]
  apply forall₂_congr
  intro directory _
  rw [Bool.not_eq_true', ← Bool.not_eq_true, Bool.and_eq_true, Bool.and_eq_true,
    List.isPrefixOf_iff_prefix, List.isPrefixOf_iff_prefix, bne_iff_ne]
  tauto

theorem isOpenTo_append_iff :
    disk.isOpenTo place (place ++ names) = true ↔
      ∀ front, front <+: names → front ≠ names → place ++ front ∉ disk.closed := by
  rw [isOpenTo_iff]
  constructor
  · intro opens front before other closed
    have inside := (List.prefix_append_right_inj place).mpr before
    have same := opens _ closed (List.prefix_append place front) inside
    exact other (List.append_cancel_left same)
  · rintro opens _ closed ⟨front, rfl⟩ inside
    have before := (List.prefix_append_right_inj place).mp inside
    apply congrArg (place ++ ·)
    by_contra other
    exact opens front before other closed

/-- What comes to light below a directory: the entries there that no closed directory hides. -/
theorem mem_listed_iff (wellFormed : disk.WellFormed) :
    (location, entry) ∈ disk.listed place ↔
      ∃ names, names ≠ [] ∧ location = place ++ names ∧ disk.entry? location = some entry ∧
        ∀ front, front <+: names → front ≠ names → place ++ front ∉ disk.closed := by
  rw [listed, List.mem_filter, mem_below_iff wellFormed]
  constructor
  · rintro ⟨⟨names, filled, rfl, found⟩, opens⟩
    exact ⟨names, filled, rfl, found, isOpenTo_append_iff.mp opens⟩
  · rintro ⟨names, filled, rfl, found, opens⟩
    exact ⟨⟨names, filled, rfl, found⟩, isOpenTo_append_iff.mpr opens⟩

end Disk

namespace Workspace

variable {workspace : Workspace} {start path : Text} {place : Location} {names : List Text}

theorem listingError?_eq_none_iff {location : Location} :
    workspace.listingError? path location = none ↔
      CodeUnit.size path ≤ pathLimit ∧ location ∉ workspace.disk.closed := by
  rw [listingError?]
  split
  next long =>
    refine iff_of_false (by simp) ?_
    exact fun opens => absurd long (Nat.not_lt_of_le opens.1)
  next short =>
    rw [Nat.not_lt] at short
    simp [short]

/-- All directories on the way from the start of a walk to where the names lead can be listed. -/
def Reaches (workspace : Workspace) (start : Text) (place : Location) (names : List Text) : Prop :=
  ∀ front, front <+: names → front ≠ names →
    workspace.listingError? (front.foldl Path.join start) (place ++ front) = none

theorem reaches_nil : workspace.Reaches start place [] :=
  fun _ before other => absurd (List.prefix_nil.mp before) other

/-- Of the directories on the way, the last one has the longest path. -/
theorem reaches_iff (named : ∀ name ∈ names, Path.IsName name) (filled : names ≠ []) :
    workspace.Reaches start place names ↔
      CodeUnit.size (names.dropLast.foldl Path.join start) ≤ pathLimit ∧
        ∀ front, front <+: names → front ≠ names → place ++ front ∉ workspace.disk.closed := by
  simp only [Reaches, listingError?_eq_none_iff]
  constructor
  · intro reaches
    -- The directory that the last name stands in is one of those on the way.
    have shorter : names.dropLast ≠ names := fun same => by
      have length := congrArg List.length same
      have some := List.length_pos_iff.mpr filled
      rw [List.length_dropLast] at length
      omega
    exact ⟨(reaches _ (List.dropLast_prefix names) shorter).1,
      fun front before other => (reaches front before other).2⟩
  · rintro ⟨short, opens⟩ front before other
    refine ⟨Nat.le_trans ?_ short, opens front before other⟩
    apply Path.size_foldl_join_le
    · -- What does not go as far as the last name ends before it.
      rw [← List.dropLast_concat_getLast filled] at before other
      exact (List.prefix_concat_iff.mp before).resolve_left other
    · exact fun name member => named name (List.dropLast_subset names member)

/-- The entries that a walk comes to, by their names from where it starts. -/
theorem mem_visits_iff (wellFormed : workspace.disk.WellFormed) {first : Entry} {visit : Visit}
    (stands : workspace.disk.entry? place = some first) :
    visit ∈ workspace.visits start place first ↔
      ∃ names, visit.path = names.foldl Path.join start ∧ visit.location = place ++ names ∧
        workspace.disk.entry? (place ++ names) = some visit.entry ∧
        workspace.Reaches start place names := by
  have named : ∀ {names entry}, workspace.disk.entry? (place ++ names) = some entry →
      ∀ name ∈ names, Path.IsName name := fun found name member =>
    (Disk.isName_of_holds wellFormed ⟨_, found⟩ name (List.mem_append_right _ member)).1
  have last : ∀ {names : List Text}, names ≠ [] →
      pathBelow start place (place ++ names).dropLast = names.dropLast.foldl Path.join start := by
    intro names filled
    rw [List.dropLast_append_of_ne_nil filled, pathBelow, List.drop_left]
  obtain ⟨path, location, entry⟩ := visit
  rw [mem_visits]
  dsimp only
  constructor
  · rintro (same | ⟨-, listed, short, rfl⟩)
    · cases same
      exact ⟨[], rfl, (List.append_nil place).symm, by rwa [List.append_nil], reaches_nil⟩
    · obtain ⟨names, filled, rfl, found, opens⟩ := (Disk.mem_listed_iff wellFormed).mp listed
      rw [last filled] at short
      refine ⟨names, ?_, rfl, found, (reaches_iff (named found) filled).mpr ⟨short, opens⟩⟩
      rw [pathBelow, List.drop_left]
  · rintro ⟨names, rfl, rfl, found, reaches⟩
    by_cases filled : names = []
    · subst filled
      rw [List.append_nil, stands] at found
      cases found
      exact .inl (by rw [List.append_nil, List.foldl_nil])
    · have directory := Disk.directory_of_holds wellFormed filled ⟨entry, found⟩
      obtain ⟨short, opens⟩ := (reaches_iff (named found) filled).mp reaches
      refine .inr ⟨Option.some.inj (stands.symm.trans directory), ?_, ?_, ?_⟩
      · exact (Disk.mem_listed_iff wellFormed).mpr ⟨names, filled, rfl, found, opens⟩
      · rw [last filled]
        exact short
      · rw [pathBelow, List.drop_left]

section
variable (wellFormed : workspace.disk.WellFormed) (located : workspace.locate start = .ok place)
include wellFormed located

/-- Where a walk starts at an entry, it makes its visits and reports of each. -/
theorem exists_walk_eq : ∃ first, workspace.disk.entry? place = some first ∧
    workspace.walk start = (workspace.visits start place first).flatMap workspace.report := by
  obtain ⟨target, -⟩ := target_of_locate located
  obtain ⟨first, stands⟩ := Disk.holds_of_follow wellFormed (Path.pieces_ne_nil start) target
  refine ⟨first, stands, ?_⟩
  rw [walk, entryAt_eq_ok_iff.mpr ⟨located, stands⟩]

/-- A walk tells of the entries that it reaches. -/
theorem mem_walk_iff {entry : Entry} :
    .ok (path, entry) ∈ workspace.walk start ↔
      ∃ names, path = names.foldl Path.join start ∧
        workspace.disk.entry? (place ++ names) = some entry ∧
        workspace.Reaches start place names := by
  obtain ⟨first, stands, walked⟩ := exists_walk_eq wellFormed located
  rw [walked, List.mem_flatMap]
  constructor
  · rintro ⟨visit, visited, told⟩
    obtain ⟨rfl, rfl⟩ := ok_mem_report.mp told
    obtain ⟨names, spelled, -, reached⟩ := (mem_visits_iff wellFormed stands).mp visited
    exact ⟨names, spelled, reached⟩
  · rintro ⟨names, spelled, reached⟩
    refine ⟨⟨path, place ++ names, entry⟩, ?_, ok_mem_report.mpr ⟨rfl, rfl⟩⟩
    exact (mem_visits_iff wellFormed stands).mpr ⟨names, spelled, rfl, reached⟩

end

/-! ### Counting what was missed -/

/-- Whether a walk comes to a directory that it cannot list. -/
def isUnlisted (workspace : Workspace) (visit : Visit) : Bool :=
  visit.entry = .directory && (workspace.listingError? visit.path visit.location).isSome

/-- The directories that a walk comes to and cannot list. -/
def unlisted (workspace : Workspace) (start : Text) : List Text :=
  match workspace.entryAt start with
  | .error _ => []
  | .ok (place, first) =>
    ((workspace.visits start place first).filter workspace.isUnlisted).map (·.path)

theorem countP_report (visit : Visit) :
    (workspace.report visit).countP (!·.isOk) = [visit].countP workspace.isUnlisted := by
  obtain ⟨path, location, entry⟩ := visit
  cases entry with
  | file content => rfl
  | directory =>
    -- The directory itself is told of in either case, and is no error.
    rw [report, List.countP_singleton, isUnlisted]
    cases workspace.listingError? path location <;> rfl

theorem countP_flatMap_report (visits : List Visit) :
    (visits.flatMap workspace.report).countP (!·.isOk) = visits.countP workspace.isUnlisted := by
  induction visits with
  | nil => rfl
  | cons visit visits ih =>
    rw [List.flatMap_cons, List.countP_append, ih, countP_report, ← List.countP_append,
      List.singleton_append]

/-- A walk fails at its start, if that is not there, or else at each directory that it comes to and
cannot list. -/
theorem countP_walk (start : Text) :
    (workspace.walk start).countP (!·.isOk) =
      [start].countP (!workspace.isPresent ·) + (workspace.unlisted start).length := by
  rw [walk, unlisted, List.countP_singleton, isPresent]
  rcases workspace.entryAt start with problem | ⟨place, first⟩
  · rfl
  · dsimp only
    rw [countP_flatMap_report, List.length_map, List.countP_eq_length_filter]
    exact (Nat.zero_add _).symm

end Workspace
end KeyHarvest
