import KeyHarvest.Proofs.Discovered

/-!
# Ignored places

An ignore without a wildcard is compared with a path component by component, so it holds wherever
the path and the ignored place start alike: with the root, with `.`, or with a name. A file starts
as the place does from which it is found (`exists_place_of_mem_files`), and such places start as the
base does unless a pattern is expanded, an absolute path takes the place of the base, or the base is
empty (`leading_of_mem_resolveIncludes`). Expanding a pattern leaves a `./` off, and so files come
through that lie in an ignored place.
-/
namespace KeyHarvest

/-! ### Absolute paths stay absolute -/

namespace Glob

theorem isAbsolute_pathIn {directory : Text} (absolute : Path.isAbsolute directory = true)
    (name : Text) : Path.isAbsolute (pathIn directory name) = true := by
  have other : isHere directory = false := by
    simp [isHere, Path.components, absolute]
  rw [pathIn, other, if_neg Bool.false_ne_true]
  exact Path.isAbsolute_join absolute name

theorem isAbsolute_pathThrough {directory : Text} (absolute : Path.isAbsolute directory = true)
    (names : List Text) : Path.isAbsolute (pathThrough directory names) = true := by
  cases names with
  | nil => exact absolute
  | cons name names => exact Path.isAbsolute_foldl_join (isAbsolute_pathIn absolute name) names

theorem isAbsolute_of_mem_expandFrom {workspace : Workspace} {directoriesOnly : Bool}
    {steps : List Step} {directory path : Text} (absolute : Path.isAbsolute directory = true)
    (expanded : path ∈ expandFrom workspace directoriesOnly steps directory) :
    Path.isAbsolute path = true := by
  -- Behind `**` two steps are taken at once, so the induction is on the number of steps.
  induction length : steps.length using Nat.strongRecOn generalizing steps directory with
  | ind bound ih =>
    subst length
    have later : ∀ (rest : List Step) (next : List Text), rest.length < steps.length →
        (∀ path ∈ next, Path.isAbsolute path = true) →
        path ∈ next.flatMap (expandFrom workspace directoriesOnly rest) →
        Path.isAbsolute path = true := by
      intro rest next shorter absolute expanded
      obtain ⟨between, member, expanded⟩ := List.mem_flatMap.mp expanded
      exact ih _ shorter (absolute between member) expanded rfl
    have through : ∀ (named : List (List Text)), ∀ path ∈ named.map (pathThrough directory),
        Path.isAbsolute path = true := by
      intro named path member
      obtain ⟨names, -, rfl⟩ := List.mem_map.mp member
      exact isAbsolute_pathThrough absolute names
    match steps with
    | [] =>
      rw [expandFrom] at expanded
      split at expanded
      · cases expanded
      · rw [List.mem_singleton.mp expanded]
        exact absolute
    | .literal name :: rest =>
      rw [expandFrom] at expanded
      -- A name that is not there ends the expansion.
      obtain ⟨-, expanded⟩ := List.mem_ite_nil_right.mp expanded
      exact ih _ (Nat.lt_succ_self _) (isAbsolute_pathIn absolute name) expanded rfl
    | .wild tokens :: rest =>
      rw [expandFrom] at expanded
      -- The names of entries that match come first, then `.` and `..`.
      rcases List.mem_append.mp expanded with expanded | expanded
      · exact later rest _ (Nat.lt_succ_self _) (through _) expanded
      · split at expanded
        · refine later rest _ (Nat.lt_succ_self _) ?_ expanded
          intro path member
          obtain ⟨name, -, rfl⟩ := List.mem_map.mp member
          exact Path.isAbsolute_join absolute name
        · cases expanded
    | [.anyDepth] =>
      rw [expandFrom] at expanded
      exact through _ path (List.mem_filter.mp expanded).1
    | .anyDepth :: step :: rest =>
      rw [expandFrom] at expanded
      have shorter : rest.length < (Step.anyDepth :: step :: rest).length :=
        Nat.lt_succ_of_lt (Nat.lt_succ_self _)
      exact later rest _ shorter (through _) expanded

theorem isAbsolute_of_mem_expand {workspace : Workspace} {pattern path : Text}
    {expansion : Expansion} (absolute : Path.isAbsolute pattern = true)
    (read : readExpansion pattern = .ok expansion) (expanded : path ∈ expand workspace expansion) :
    Path.isAbsolute path = true := by
  have fromRoot : expansion.absolute = true := by
    simp only [readExpansion, absolute, bind, Except.bind] at read
    split at read
    · cases read
    · split at read
      · cases read
      · cases read
        rfl
  rw [expand, fromRoot, if_pos rfl] at expanded
  exact isAbsolute_of_mem_expandFrom rfl expanded

end Glob

/-! ### What the places searched start with -/

theorem isAbsolute_of_mem_resolveIncludes {workspace : Workspace} {base start : Text}
    {includes : List Text} (absolute : Path.isAbsolute base = true)
    (searched : start ∈ (resolveIncludes workspace base includes).1) :
    Path.isAbsolute start = true := by
  rw [resolveIncludes] at searched
  split at searched
  · rw [List.mem_singleton.mp searched]
    exact absolute
  · dsimp only at searched
    rw [List.flatMap_map] at searched
    obtain ⟨pattern, -, searched⟩ := List.mem_flatMap.mp searched
    have joined := Path.isAbsolute_join absolute pattern
    rw [resolveInclude] at searched
    split at searched
    · split at searched
      next expansion read =>
        have expanded := (List.mem_filter.mp searched).1
        exact Glob.isAbsolute_of_mem_expand joined read expanded
      next => cases searched
    · split at searched
      · rw [List.mem_singleton.mp searched]
        exact joined
      · cases searched

/-- Includes that are paths from the base start as the base does. -/
theorem leading_of_mem_resolveIncludes {workspace : Workspace} {base start : Text}
    {includes : List Text} (some : base ≠ [])
    (paths : ∀ pattern ∈ includes,
      Glob.hasWildcard pattern = false ∧ Path.isAbsolute pattern = false)
    (searched : start ∈ (resolveIncludes workspace base includes).1) :
    Path.leading start = Path.leading base := by
  rw [resolveIncludes] at searched
  split at searched
  · rw [List.mem_singleton.mp searched]
  · dsimp only at searched
    rw [List.flatMap_map] at searched
    obtain ⟨pattern, listed, searched⟩ := List.mem_flatMap.mp searched
    obtain ⟨plain, relative⟩ := paths pattern listed
    rw [resolveInclude, plain, if_neg Bool.false_ne_true] at searched
    split at searched
    · rw [List.mem_singleton.mp searched]
      exact Path.leading_join some relative
    · cases searched

/-- A file that is found starts as the place does from which it was found. -/
theorem exists_place_of_mem_files {workspace : Workspace} {base path : Text} {filter : Filter}
    (wellFormed : workspace.disk.WellFormed)
    (found : path ∈ (scanFiles workspace base filter).files) :
    ∃ start ∈ (resolveIncludes workspace base filter.includes).1,
      Path.leading path = Path.leading start ∧ isIgnored base filter.ignores path = false := by
  obtain ⟨start, searched, entry, member, kept⟩ := mem_files_scanFiles.mp found
  obtain ⟨place, names, -, nonempty, rfl, named, -⟩ :=
    Workspace.exists_names_of_mem_walk wellFormed member
  exact ⟨start, searched, Path.leading_foldl_join nonempty named, (file_of_isKept kept).1⟩

/-! ### Ignores -/

theorem not_startsWith_of_not_isIgnored {base path ignore : Text} {ignores : List Text}
    (kept : isIgnored base ignores path = false) (listed : ignore ∈ ignores)
    (plain : Glob.hasWildcard ignore = false) :
    Path.startsWith path (Path.join base ignore) = false := by
  rw [isIgnored, Bool.or_eq_false_iff, List.any_eq_false] at kept
  have place : Path.join base ignore ∈ ignoredPaths base ignores := by
    apply List.mem_map_of_mem
    rw [List.mem_filter, plain]
    exact ⟨listed, rfl⟩
  simpa using kept.1 _ place

/-- No file that is found lies in a place that an ignore without a wildcard stands for. -/
def LiteralIgnoresHold (workspace : Workspace) (base : Text) (filter : Filter) : Prop :=
  ∀ ignore ∈ filter.ignores, Glob.hasWildcard ignore = false →
    ∀ path ∈ (scanFiles workspace base filter).files,
      Path.NoParents path → Path.NoParents (Path.join base ignore) →
        ¬ workspace.LiesIn path (Path.join base ignore)

/-- A file that is found in an ignored place is written with another start than the place. Then the
base is relative, and there is a pattern among the includes, an absolute path, or an empty base. -/
theorem leading_ne_of_liesIn_ignored {workspace : Workspace} {base path ignore : Text}
    {filter : Filter} (wellFormed : workspace.disk.WellFormed)
    (found : path ∈ (scanFiles workspace base filter).files) (listed : ignore ∈ filter.ignores)
    (plain : Glob.hasWildcard ignore = false) (straight : Path.NoParents path)
    (straight' : Path.NoParents (Path.join base ignore))
    (lies : workspace.LiesIn path (Path.join base ignore)) :
    Path.leading path ≠ Path.leading (Path.join base ignore) ∧
      Path.isAbsolute base = false ∧
      (base = [] ∨ Path.isAbsolute ignore = true ∨
        ∃ pattern ∈ filter.includes,
          Glob.hasWildcard pattern = true ∨ Path.isAbsolute pattern = true) := by
  obtain ⟨start, searched, spelled, kept⟩ := exists_place_of_mem_files wellFormed found
  have differs : Path.leading path ≠ Path.leading (Path.join base ignore) := by
    intro same
    have below := Workspace.startsWith_of_liesIn straight straight' same lies
    rw [not_startsWith_of_not_isIgnored kept listed plain] at below
    cases below
  refine ⟨differs, ?_, ?_⟩
  · -- With an absolute base both would start with the root.
    rw [← Bool.not_eq_true]
    intro absolute
    apply differs
    rw [spelled, Path.leading_eq_root_iff.mpr (isAbsolute_of_mem_resolveIncludes absolute searched)]
    exact (Path.leading_eq_root_iff.mpr (Path.isAbsolute_join absolute ignore)).symm
  · -- With paths from the base alone both would start as the base does.
    apply Classical.byContradiction
    intro none
    simp only [not_or, not_exists, not_and, Bool.not_eq_true] at none
    obtain ⟨nonempty, relative, paths⟩ := none
    apply differs
    rw [spelled, Path.leading_join nonempty relative]
    exact leading_of_mem_resolveIncludes nonempty paths searched

/-- A directory `a` with a page, in the working directory. -/
def pageInDirectory : Workspace :=
  ⟨⟨[(["a".toList], .directory), (["a".toList, "x.html".toList], .file [])], []⟩, []⟩

/-- All directories are searched, and `a` is ignored. -/
def ignoringOne : Filter := ⟨["*".toList], ["a".toList], ["html".toList]⟩

theorem liesIn_pageInDirectory :
    pageInDirectory.LiesIn "a/x.html".toList (Path.join "./".toList "a".toList) :=
  ⟨["a".toList], ["x.html".toList], rfl, rfl⟩

theorem leading_ne_pageInDirectory :
    let base := "./".toList
    let ignored := Path.join base "a".toList
    let path := "a/x.html".toList
    pageInDirectory.disk.WellFormed ∧
      path ∈ (scanFiles pageInDirectory base ignoringOne).files ∧
      pageInDirectory.LiesIn path ignored ∧
      Path.leading path ≠ Path.leading ignored ∧ Path.isAbsolute base = false ∧
      (base = [] ∨ Path.isAbsolute "a".toList = true ∨
        ∃ pattern ∈ ignoringOne.includes,
          Glob.hasWildcard pattern = true ∨ Path.isAbsolute pattern = true) := by
  intro base ignored path
  have wellFormed : pageInDirectory.disk.WellFormed := by decide +kernel
  have found : path ∈ (scanFiles pageInDirectory base ignoringOne).files := by decide +kernel
  have listed : "a".toList ∈ ignoringOne.ignores := by decide +kernel
  have differs := leading_ne_of_liesIn_ignored wellFormed found listed (by decide +kernel)
    (by decide +kernel) (by decide +kernel) liesIn_pageInDirectory
  exact ⟨wellFormed, found, liesIn_pageInDirectory, differs⟩

/-- The expanded pattern leaves the `./` of the base off, so that the ignore is not seen to hold. -/
theorem not_literalIgnoresHold :
    ¬ ∀ (workspace : Workspace) (base : Text) (filter : Filter),
      workspace.disk.WellFormed → LiteralIgnoresHold workspace base filter := by
  intro hold
  have holds := hold pageInDirectory "./".toList ignoringOne (by decide +kernel)
  refine holds "a".toList (by decide +kernel) (by decide +kernel) "a/x.html".toList
    (by decide +kernel) (by decide +kernel) (by decide +kernel) ?_
  exact liesIn_pageInDirectory

end KeyHarvest
