import KeyHarvest.Files.Disk

/-!
# Places that paths lead to

Several paths lead to the same place of a tree. `SamePlace` and `LiesIn` compare paths by the places
that they lead to, and `SpelledAlike` says of a path to a place and a path to a place in it that the
second is written as the first one goes on. `PassesThrough` is about a place that need not be there.
-/
namespace KeyHarvest

namespace Path

/-- What stands before the names of a path: the root, a leading `.`, or nothing. -/
def leading (path : Text) : List Component :=
  if isAbsolute path then [.root]
  else if (pieces isSeparator path).head? = some ['.'] then [.current]
  else []

/-- No component of the path leads back up. -/
def NoParents (path : Text) : Prop := ['.', '.'] ∉ pieces isSeparator path

instance (path : Text) : Decidable (NoParents path) := inferInstanceAs (Decidable (_ ∉ _))

/-- A name that is a component by itself. -/
def IsName (name : Text) : Prop := component? name = some (.name name) ∧ '/' ∉ name

instance (name : Text) : Decidable (IsName name) := inferInstanceAs (Decidable (_ ∧ _))

end Path

namespace Disk

/-- Entries and names are checked one by one. -/
theorem wellFormed_iff (disk : Disk) :
    disk.WellFormed ↔
      (disk.entries.map (·.1)).Nodup ∧
        ∀ entry ∈ disk.entries, disk.entry? entry.1.dropLast = some .directory ∧ entry.1 ≠ [] ∧
          ∀ name ∈ entry.1, Path.component? name = some (.name name) ∧ '/' ∉ name ∧
            '\x00' ∉ name := by
  constructor
  · rintro ⟨once, inDirectory, named⟩
    refine ⟨once, fun (location, entry) member => ?_⟩
    obtain ⟨some, names⟩ := named location entry member
    refine ⟨?_, some, names⟩
    rw [← List.dropLast_concat_getLast some] at member
    exact inDirectory _ _ entry member
  · rintro ⟨once, entries⟩
    refine ⟨once, fun location name entry member => ?_, fun location entry member => ?_⟩
    · have above := (entries _ member).1
      rwa [List.dropLast_concat] at above
    · exact (entries _ member).2

instance (disk : Disk) : Decidable disk.WellFormed := decidable_of_iff' _ disk.wellFormed_iff

end Disk

namespace Workspace

/-- Where a path leads, however long it is. -/
def target (workspace : Workspace) (path : Text) : Except FileError Location :=
  workspace.disk.follow (if Path.isAbsolute path then [] else workspace.here)
    (pieces Path.isSeparator path)

/-- Both paths lead to one place. -/
def SamePlace (workspace : Workspace) (path path' : Text) : Prop :=
  ∃ place, workspace.target path = .ok place ∧ workspace.target path' = .ok place

/-- The path leads to the place of the other one, or to a place in it. -/
def LiesIn (workspace : Workspace) (path outer : Text) : Prop :=
  ∃ place names, workspace.target outer = .ok place ∧
    workspace.target path = .ok (place ++ names)

/-- Where the inner path leads into the place of the outer one, it is written as the outer path with
the names that lead on from there, apart from a separator at the end. -/
def SpelledAlike (workspace : Workspace) (outer inner : Text) : Prop :=
  ∀ place names, workspace.target outer = .ok place →
    workspace.target inner = .ok (place ++ names) →
    Path.join (names.foldl Path.join outer) [] = Path.join inner []

theorem spelledAlike_iff (workspace : Workspace) (outer inner : Text) :
    workspace.SpelledAlike outer inner ↔
      ∀ place ∈ (workspace.target outer).toOption, ∀ below ∈ (workspace.target inner).toOption,
        place <+: below →
        Path.join ((below.drop place.length).foldl Path.join outer) [] = Path.join inner [] := by
  rw [SpelledAlike]
  cases workspace.target outer with
  | error problem => simp [Except.toOption]
  | ok place =>
    cases workspace.target inner with
    | error problem => simp [Except.toOption]
    | ok below =>
      simp only [Except.toOption, Option.mem_def, Option.some.injEq, forall_eq', Except.ok.injEq]
      constructor
      · rintro alike ⟨names, rfl⟩
        rw [List.drop_left]
        exact alike place names rfl rfl
      · rintro alike _ names rfl rfl
        have same := alike (List.prefix_append place names)
        rwa [List.drop_left] at same

instance (workspace : Workspace) (outer inner : Text) :
    Decidable (workspace.SpelledAlike outer inner) :=
  decidable_of_iff' _ (workspace.spelledAlike_iff outer inner)

end Workspace
end KeyHarvest
