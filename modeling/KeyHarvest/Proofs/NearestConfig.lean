import KeyHarvest.Config.Lookup
import KeyHarvest.Proofs.Ancestors

/-!
# The nearest configuration

The search for a configuration goes through the lineage of a directory. It finds the file of the
first directory that holds one, unless a directory before that one holds a repository
(`Config.find?_nearest`); the repository of the directory itself does not matter.
-/
namespace KeyHarvest.Config

/-- An entry of this name is in the directory. -/
def Holds (workspace : Workspace) (directory name : Text) : Prop :=
  workspace.isPresent (Path.join directory name) = true

instance (workspace : Workspace) (directory name : Text) :
    Decidable (Holds workspace directory name) :=
  inferInstanceAs (Decidable (_ = true))

/-- The directory is the first of them with a configuration file, and no directory before it holds a
repository. -/
def IsNearest (workspace : Workspace) (directories : List Text) (directory : Text) : Prop :=
  ∃ before after, directories = before ++ directory :: after ∧ Holds workspace directory fileName ∧
    ∀ earlier ∈ before,
      ¬ Holds workspace earlier fileName ∧ ¬ Holds workspace earlier repositoryName

variable {workspace : Workspace}

theorem not_isNearest_nil (directory : Text) : ¬ IsNearest workspace [] directory := by
  rintro ⟨before, after, none, -⟩
  exact List.append_ne_nil_of_right_ne_nil before (List.cons_ne_nil _ _) none.symm

/-- Either the first directory is the nearest one, or it holds nothing and is passed. -/
theorem isNearest_cons {first directory : Text} {rest : List Text} :
    IsNearest workspace (first :: rest) directory ↔
      Holds workspace first fileName ∧ directory = first ∨
        (¬ Holds workspace first fileName ∧ ¬ Holds workspace first repositoryName) ∧
          IsNearest workspace rest directory := by
  constructor
  · rintro ⟨before, after, whole, holds, passed⟩
    cases before with
    | nil =>
      obtain ⟨rfl, -⟩ := List.cons.inj whole
      exact .inl ⟨holds, rfl⟩
    | cons earlier before =>
      rw [List.cons_append, List.cons.injEq] at whole
      obtain ⟨rfl, others⟩ := whole
      obtain ⟨bare, passed⟩ := List.forall_mem_cons.mp passed
      exact .inr ⟨bare, before, after, others, holds, passed⟩
  · rintro (⟨holds, rfl⟩ | ⟨bare, before, after, rfl, holds, passed⟩)
    · exact ⟨[], rest, rfl, holds, fun _ none => absurd none List.not_mem_nil⟩
    · exact ⟨first :: before, after, rfl, holds, List.forall_mem_cons.mpr ⟨bare, passed⟩⟩

/-- The induction is on the directories that are left; one that holds a configuration file settles
the search before its repository is looked for. -/
theorem findIn_eq_some_iff {directories : List Text} {path : Text} :
    findIn workspace directories = some path ↔
      ∃ directory, IsNearest workspace directories directory ∧
        path = Path.join directory fileName := by
  induction directories with
  | nil =>
    refine iff_of_false (by simp [findIn]) ?_
    rintro ⟨directory, nearest, -⟩
    exact not_isNearest_nil directory nearest
  | cons first rest ih =>
    simp only [isNearest_cons, findIn]
    split
    next holds =>
      have here : Holds workspace first fileName := holds
      simp [here, eq_comm]
    next bare =>
      have absent : ¬ Holds workspace first fileName := bare
      split
      next repository =>
        have inside : Holds workspace first repositoryName := repository
        simp [absent, inside]
      next outside =>
        have absent' : ¬ Holds workspace first repositoryName := outside
        simp [absent, absent', ih]

/-- Every path has one lineage, and the search goes through it: it finds the configuration file of
the nearest directory with one, and nothing exactly if there is no such directory. -/
theorem find?_nearest (workspace : Workspace) (start : Text) :
    (∃! directories, Path.IsLineage start directories) ∧
      ∀ directories, Path.IsLineage start directories →
        (∀ path, find? workspace start = some path ↔
          ∃ directory, IsNearest workspace directories directory ∧
            path = Path.join directory fileName) ∧
        (find? workspace start = none ↔
          ¬ ∃ directory, IsNearest workspace directories directory) ∧
        directories.length ≤ (Path.components start).length + 1 := by
  constructor
  · refine ⟨Path.ancestors start, Path.isLineage_ancestors start, ?_⟩
    exact fun directories lineage => Path.isLineage_iff.mp lineage
  · intro directories lineage
    have found (path : Text) : find? workspace start = some path ↔
        ∃ directory, IsNearest workspace directories directory ∧
          path = Path.join directory fileName := by
      rw [find?, ← Path.isLineage_iff.mp lineage]
      exact findIn_eq_some_iff
    refine ⟨found, ?_, lineage.length_le⟩
    rw [Option.eq_none_iff_forall_ne_some]
    constructor
    · rintro missing ⟨directory, nearest⟩
      exact missing _ ((found _).mpr ⟨directory, nearest, rfl⟩)
    · rintro none path settled
      obtain ⟨directory, nearest, -⟩ := (found path).mp settled
      exact none ⟨directory, nearest⟩

/-- A repository with a configuration of its own, in a directory with another one. -/
def nestedConfigs : Workspace :=
  ⟨⟨[([fileName], .file []), (["repo".toList], .directory),
    (["repo".toList, repositoryName], .directory), (["repo".toList, fileName], .file []),
    (["repo".toList, "web".toList], .directory)], []⟩, ["repo".toList]⟩

/-- From a directory that is named relative to the repository, through a point. -/
theorem find?_nearest_nestedConfigs :
    let start := "web/./pages/".toList
    let directories := [start, "web".toList, []]
    Path.IsLineage start directories ∧ IsNearest nestedConfigs directories [] ∧
      find? nestedConfigs start = some fileName := by
  intro start directories
  have lineage : Path.IsLineage start directories := Path.isLineage_iff.mpr (by decide +kernel)
  obtain ⟨found, -, -⟩ := (find?_nearest nestedConfigs start).2 directories lineage
  have nearest : IsNearest nestedConfigs directories [] :=
    ⟨[start, "web".toList], [], rfl, by decide +kernel, by decide +kernel⟩
  exact ⟨lineage, nearest, (found fileName).mpr ⟨[], nearest, rfl⟩⟩

end KeyHarvest.Config
