import KeyHarvest.Proofs.Expansions

/-!
# Scans of source roots

Two source roots with the same contents are searched at the same places by includes that suit both
(`SourceRoot.exists_of_mem_resolveIncludes`), and so the same files are found below them, whatever
the roots are called (`SourceRoot.finds_iff_of_sameContents`). A pattern suits only a root whose
path is plain: behind any other one it is read as a part of a longer pattern, which can match other
directories or none, or be invalid.
-/
namespace KeyHarvest

namespace SourceRoot
open Workspace

variable {root root' : SourceRoot} {filter : Filter} {pattern path start : Text}
  {names before : List Text}

/-! ### Places that are searched -/

/-- The path leads to the names below the root, and is short enough for what lies below. -/
structure IsStart (root : SourceRoot) (start : Text) (names : List Text) : Prop where
  located : root.workspace.locate start = .ok (root.place ++ names)
  short : ∀ {inner entry}, root.standing (names ++ inner) = some entry →
    CodeUnit.size (inner.foldl Path.join start) ≤ pathLimit

theorem isStart_of_stands {spent bound : Nat} (fits : root.Fits bound)
    (stands : root.Stands start names spent) (enough : spent ≤ bound) :
    IsStart root start names := by
  refine ⟨stands.locate fits enough, fun {inner entry} found => ?_⟩
  have room := fits _ entry found
  rw [lengthOf_append] at room
  rw [standing, ← List.append_assoc] at found
  have below := Leads.foldl_join root.wellFormed root.short stands ⟨entry, found⟩
  exact Nat.le_trans below.short (by omega)

theorem isStart_base (root : SourceRoot) (room : root.HasRoom []) : IsStart root root.base [] := by
  have stands : root.Stands root.base [] 0 := by
    rw [Stands, List.append_nil]
    exact (leads_of_locate root.wellFormed root.located).mono (by omega)
  exact isStart_of_stands (fits_of_hasRoom room) stands (Nat.zero_le _)

theorem base_ne_nil (root : SourceRoot) : root.base ≠ [] := (target_of_locate root.located).2

/-- Behind a base that is plain, a pattern is read as by itself. -/
theorem toOption_readExpansion_base (suits : root.Suits pattern)
    (wild : Glob.hasWildcard pattern = true) :
    (Glob.readExpansion (Path.join root.base pattern)).toOption =
      (Glob.readExpansion pattern).toOption.map fun expansion =>
        ⟨Path.isAbsolute root.base,
          (Glob.piecesTerminated (Path.body root.base)).map .literal ++ expansion.steps,
          expansion.directoriesOnly⟩ := by
  have filled : pattern ≠ [] := by
    rintro rfl
    cases wild
  obtain ⟨plain, -⟩ := suits.wild wild
  exact Glob.toOption_readExpansion_join root.base_ne_nil plain suits.relative filled

theorem resolveInclude_of_invalid (suits : root.Suits pattern)
    (wild : Glob.hasWildcard pattern = true)
    (invalid : (Glob.readExpansion pattern).toOption = none) :
    ∃ problem, resolveInclude root.workspace root.base pattern =
      ([], [.invalidInclude pattern problem]) := by
  have joined := toOption_readExpansion_base suits wild
  rw [invalid] at joined
  rw [resolveInclude, if_pos wild]
  cases whole : Glob.readExpansion (Path.join root.base pattern) with
  | error problem => exact ⟨problem, rfl⟩
  | ok expansion =>
    rw [whole] at joined
    cases joined

/-- A valid pattern is expanded from the root by its own steps. -/
theorem resolveInclude_of_valid (suits : root.Suits pattern)
    (wild : Glob.hasWildcard pattern = true) {expansion : Glob.Expansion}
    (read : Glob.readExpansion pattern = .ok expansion) :
    ∃ path, root.Stands path [] 0 ∧
      (IsIdle path → Glob.anchorsSteps expansion.steps = true) ∧
      resolveInclude root.workspace root.base pattern =
        ((Glob.expandFrom root.workspace expansion.directoriesOnly expansion.steps path).filter
          (root.workspace.isDirectory ·), []) := by
  obtain ⟨-, anchored, below⟩ := suits.wild wild
  obtain ⟨-, -, behind⟩ :=
    Glob.staysBelow_of_readExpansion suits.relative suits.straight below read
  obtain ⟨path, stands, firm, expanded⟩ :=
    exists_path_of_base (fits_of_hasRoom suits.room) suits.relative anchored behind
  refine ⟨path, stands, firm, ?_⟩
  have joined := toOption_readExpansion_base suits wild
  rw [read] at joined
  rw [resolveInclude, if_pos wild]
  cases whole : Glob.readExpansion (Path.join root.base pattern) with
  | error problem =>
    rw [whole] at joined
    cases joined
  | ok expansion' =>
    rw [whole] at joined
    cases joined
    dsimp only
    rw [Glob.expand]
    dsimp only
    rw [expanded]

theorem IsStart.join (fits : root.Fits (CodeUnit.size pattern + 1))
    (relative : Path.isAbsolute pattern = false) (plain : '\x00' ∉ pattern)
    (follows : root.workspace.disk.follow root.place (pieces Path.isSeparator pattern) =
      .ok (root.place ++ names)) :
    IsStart root (Path.join root.base pattern) names := by
  have based := leads_of_locate root.wellFormed root.located
  have leads := based.join root.wellFormed relative plain follows
  exact isStart_of_stands fits (Leads.mono leads (by omega)) (Nat.le_refl _)

/-- A path that is joined to the base leads to the same names behind the other base. -/
theorem isStart_join_of_sameContents (same : root.SameContents root') (suits : root.Suits pattern)
    (suits' : root'.Suits pattern) {place : Location}
    (located : root.workspace.locate (Path.join root.base pattern) = .ok place) :
    ∃ names, IsStart root (Path.join root.base pattern) names ∧
      IsStart root' (Path.join root'.base pattern) names := by
  obtain ⟨target, -⟩ := target_of_locate located
  obtain ⟨base, -⟩ := target_of_locate root.located
  rw [target_join_of_relative root.base suits.relative, base] at target
  have within : root.workspace.disk.follow (root.place ++ []) (pieces Path.isSeparator pattern) =
      .ok place := by rwa [List.append_nil]
  obtain ⟨names, -, rfl, follows⟩ := follow_of_sameContents same suits.straight within
  rw [List.append_nil] at follows
  have plain : '\x00' ∉ pattern := by
    have whole := (leads_of_locate root.wellFormed located).plain
    rw [Path.join_eq suits.relative] at whole
    exact fun nul => whole (List.mem_append_right _ nul)
  exact ⟨names, .join (fits_of_hasRoom suits.room) suits.relative plain target,
    .join (fits_of_hasRoom suits'.room) suits.relative plain follows⟩

/-- What an include stands for is searched below both roots. -/
theorem exists_of_mem_resolveInclude (same : root.SameContents root') (suits : root.Suits pattern)
    (suits' : root'.Suits pattern)
    (found : start ∈ (resolveInclude root.workspace root.base pattern).1) :
    ∃ names, IsStart root start names ∧
      ∃ start' ∈ (resolveInclude root'.workspace root'.base pattern).1,
        IsStart root' start' names := by
  cases wild : Glob.hasWildcard pattern with
  | true =>
    cases read : Glob.readExpansion pattern with
    | error problem =>
      have invalid : (Glob.readExpansion pattern).toOption = none := by rw [read]; rfl
      obtain ⟨problem, nothing⟩ := resolveInclude_of_invalid suits wild invalid
      rw [nothing] at found
      cases found
    | ok expansion =>
      -- Both expansions start at the root, and take the same steps from there.
      have fits := fits_of_hasRoom suits.room
      have fits' := fits_of_hasRoom suits'.room
      obtain ⟨path, stands, -, places⟩ := resolveInclude_of_valid suits wild read
      obtain ⟨path', stands', firm, places'⟩ := resolveInclude_of_valid suits' wild read
      obtain ⟨-, -, below⟩ := suits.wild wild
      obtain ⟨steps, enough, -⟩ :=
        Glob.staysBelow_of_readExpansion suits.relative suits.straight below read
      rw [places] at found
      rw [places']
      obtain ⟨expanded, directory⟩ := List.mem_filter.mp found
      obtain ⟨names, start', meet, expanded'⟩ := exists_of_mem_expandFrom same fits fits' steps
        (by omega) firm ⟨stands, stands'⟩ expanded
      rw [meet.isDirectory_iff same fits fits' (Nat.le_refl _)] at directory
      exact ⟨names, isStart_of_stands fits meet.left (Nat.le_refl _), start',
        List.mem_filter.mpr ⟨expanded', directory⟩,
        isStart_of_stands fits' meet.right (Nat.le_refl _)⟩
  | false =>
    rw [resolveInclude, wild, if_neg Bool.false_ne_true] at found ⊢
    split at found
    next present =>
      -- An include without a wildcard is joined to the base and followed as it stands.
      rw [List.mem_singleton.mp found]
      obtain ⟨place, entry, located, stands⟩ := exists_of_isPresent present
      obtain ⟨names, starts, starts'⟩ := isStart_join_of_sameContents same suits suits' located
      rw [starts.located] at located
      cases located
      rw [← standing, standing_eq same] at stands
      have present' : root'.workspace.isPresent (Path.join root'.base pattern) = true := by
        rw [Workspace.isPresent, entryAt_eq_ok_iff.mpr ⟨starts'.located, stands⟩]
        rfl
      rw [if_pos present']
      exact ⟨names, starts, _, List.mem_singleton_self _, starts'⟩
    · cases found

theorem exists_of_mem_resolveIncludes (same : root.SameContents root') {includes : List Text}
    (room : includes = [] → root.HasRoom []) (room' : includes = [] → root'.HasRoom [])
    (suits : ∀ pattern ∈ includes, root.Suits pattern)
    (suits' : ∀ pattern ∈ includes, root'.Suits pattern)
    (found : start ∈ (resolveIncludes root.workspace root.base includes).1) :
    ∃ names, IsStart root start names ∧
      ∃ start' ∈ (resolveIncludes root'.workspace root'.base includes).1,
        IsStart root' start' names := by
  rw [resolveIncludes] at found ⊢
  split at found
  next none =>
    rw [List.mem_singleton.mp found, if_pos none]
    rw [List.isEmpty_iff] at none
    exact ⟨[], root.isStart_base (room none), _, List.mem_singleton_self _,
      root'.isStart_base (room' none)⟩
  next some =>
    rw [if_neg some]
    dsimp only at found ⊢
    rw [List.flatMap_map] at found ⊢
    obtain ⟨pattern, listed, found⟩ := List.mem_flatMap.mp found
    obtain ⟨names, starts, start', found', starts'⟩ :=
      exists_of_mem_resolveInclude same (suits pattern listed) (suits' pattern listed) found
    exact ⟨names, starts, start', List.mem_flatMap.mpr ⟨pattern, listed, found'⟩, starts'⟩

/-! ### Files that are found -/

theorem hasExtension_congr (extensions : List Text) {path' : Text}
    (same : Path.fileName? path = Path.fileName? path') :
    hasExtension extensions path = hasExtension extensions path' := by
  rw [hasExtension, hasExtension, Path.extension?, Path.extension?, same]

/-- Without ignores, the files with one of the extensions are found. -/
theorem mem_files_iff (root : SourceRoot) (none : filter.ignores = []) :
    path ∈ (scanFiles root.workspace root.base filter).files ↔
      ∃ start ∈ (resolveIncludes root.workspace root.base filter.includes).1, ∃ content,
        .ok (path, .file content) ∈ root.workspace.walk start ∧
          hasExtension filter.extensions path = true := by
  have unignored : isIgnored root.base filter.ignores path = false := by
    rw [none]
    rfl
  rw [mem_files_scanFiles]
  refine exists_congr fun start => and_congr_right fun _ => ?_
  constructor
  · rintro ⟨entry, member, kept⟩
    obtain ⟨-, content, rfl⟩ := file_of_isKept kept
    refine ⟨content, member, ?_⟩
    rw [isKept.eq_def, Bool.and_eq_true] at kept
    exact kept.2
  · rintro ⟨content, member, bears⟩
    refine ⟨.file content, member, ?_⟩
    rw [isKept.eq_def, unignored, bears]
    rfl

/-- A walk from a place below the root comes to what stands there, unless a closed directory hides
it. -/
theorem mem_walk_iff_standing (starts : IsStart root start before) {entry : Entry} :
    .ok (path, entry) ∈ root.workspace.walk start ↔
      ∃ names, path = names.foldl Path.join start ∧
        root.standing (before ++ names) = some entry ∧
        ∀ front, front <+: names → front ≠ names → ¬ root.IsClosed (before ++ front) := by
  rw [mem_walk_iff root.wellFormed starts.located]
  simp only [standing, IsClosed, Reaches, listingError?_eq_none_iff, List.append_assoc]
  refine exists_congr fun names => and_congr_right fun _ => and_congr_right fun found => ?_
  refine forall₃_congr fun front inside other => and_iff_right ?_
  -- Every directory on the way is an entry below the root, with a path that is short enough.
  obtain ⟨rest, rfl⟩ := inside
  have filled : rest ≠ [] := by
    rintro rfl
    exact other (List.append_nil front).symm
  rw [← List.append_assoc, ← List.append_assoc] at found
  have directory := Disk.directory_of_holds root.wellFormed filled ⟨entry, found⟩
  rw [List.append_assoc] at directory
  exact starts.short directory

theorem target_of_standing (located : root.workspace.locate start = .ok (root.place ++ before))
    {entry : Entry} (found : root.standing (before ++ names) = some entry) :
    root.workspace.target (names.foldl Path.join start) =
      .ok (root.place ++ (before ++ names)) := by
  obtain ⟨target, -⟩ := target_of_locate located
  rw [standing, ← List.append_assoc] at found
  have named : ∀ name ∈ names, Path.IsName name := fun name member =>
    (Disk.isName_of_holds root.wellFormed ⟨entry, found⟩ name (List.mem_append_right _ member)).1
  rw [target_foldl_join named, target, ← List.append_assoc]
  exact Disk.follow_of_holds root.wellFormed root.short ⟨entry, found⟩

/-- The name of a file that is found is the last of the names that lead there. -/
theorem fileName?_of_standing (leads : root.workspace.target path = .ok (root.place ++ names))
    {content : List UInt8} (found : root.standing names = some (.file content)) :
    Path.fileName? path = names.getLast? := by
  have filled : names ≠ [] := by
    rintro rfl
    rw [standing_nil] at found
    cases found
  rw [fileName?_of_file root.wellFormed leads found, List.getLast?_append_of_ne_nil _ filled]

section
variable (same : root.SameContents root') (none : filter.ignores = [])
  (room : filter.includes = [] → root.HasRoom []) (room' : filter.includes = [] → root'.HasRoom [])
  (suits : ∀ pattern ∈ filter.includes, root.Suits pattern)
  (suits' : ∀ pattern ∈ filter.includes, root'.Suits pattern)
include same none room room' suits suits'

/-- A file that is found below one root is found below the other. -/
theorem finds_of_sameContents
    (found : path ∈ (scanFiles root.workspace root.base filter).files) :
    ∃ names, root.workspace.target path = .ok (root.place ++ names) ∧ root'.Finds filter names := by
  obtain ⟨start, searched, content, walked, bears⟩ := (root.mem_files_iff none).mp found
  obtain ⟨before, starts, start', searched', starts'⟩ :=
    exists_of_mem_resolveIncludes same room room' suits suits' searched
  obtain ⟨names, rfl, stands, opens⟩ := (mem_walk_iff_standing starts).mp walked
  have stands' : root'.standing (before ++ names) = some (.file content) := by
    rwa [← standing_eq same]
  have leads := target_of_standing starts.located stands
  have leads' := target_of_standing starts'.located stands'
  refine ⟨before ++ names, leads, names.foldl Path.join start', ?_, leads'⟩
  refine (root'.mem_files_iff none).mpr ⟨start', searched', content, ?_, ?_⟩
  · -- The same directories are on the way there, and the same of them are closed.
    refine (mem_walk_iff_standing starts').mpr ⟨names, rfl, stands', fun front inside other => ?_⟩
    rw [← same.closed]
    exact opens front inside other
  · have named := fileName?_of_standing leads stands
    rw [← fileName?_of_standing leads' stands'] at named
    rwa [← hasExtension_congr filter.extensions named]

theorem finds_of_finds (finds : root.Finds filter names) : root'.Finds filter names := by
  obtain ⟨path, found, leads⟩ := finds
  obtain ⟨names', leads', finds'⟩ :=
    finds_of_sameContents same none room room' suits suits' found
  rw [leads] at leads'
  obtain rfl := List.append_cancel_left (Except.ok.inj leads')
  exact finds'

end

/-! ### Patterns that are reported -/

theorem mem_notices_resolveInclude {workspace : Workspace} {base pattern' : Text}
    {problem : Glob.PatternError} :
    .invalidInclude pattern problem ∈ (resolveInclude workspace base pattern').2 ↔
      pattern' = pattern ∧ Glob.hasWildcard pattern = true ∧
        Glob.readExpansion (Path.join base pattern) = .error problem := by
  rw [resolveInclude]
  split
  next wild =>
    cases read : Glob.readExpansion (Path.join base pattern') with
    | error problem' =>
      rw [List.mem_singleton, Notice.invalidInclude.injEq]
      constructor
      · rintro ⟨rfl, rfl⟩
        exact ⟨rfl, wild, read⟩
      · rintro ⟨rfl, -, read'⟩
        rw [read] at read'
        cases read'
        exact ⟨rfl, rfl⟩
    | ok expansion =>
      refine iff_of_false List.not_mem_nil ?_
      rintro ⟨rfl, -, read'⟩
      rw [read] at read'
      cases read'
  next plain =>
    refine iff_of_false ?_ ?_
    · split <;> simp
    · rintro ⟨rfl, wild, -⟩
      exact plain wild

/-- A scan reports the includes that cannot be expanded from the base. -/
theorem mem_notices_scanFiles {workspace : Workspace} {base : Text} {problem : Glob.PatternError}
    (none : filter.ignores = []) :
    .invalidInclude pattern problem ∈ (scanFiles workspace base filter).notices ↔
      pattern ∈ filter.includes ∧ Glob.hasWildcard pattern = true ∧
        Glob.readExpansion (Path.join base pattern) = .error problem := by
  -- A walk reports places only, no patterns.
  have missed : ∀ places : List Text, .invalidInclude pattern problem ∉
      (places.flatMap (searchPath workspace base filter)).filterMap noticeOf? := by
    intro places member
    obtain ⟨item, searched, notice⟩ := List.mem_filterMap.mp member
    obtain ⟨place, -, searched⟩ := List.mem_flatMap.mp searched
    rw [searchPath] at searched
    obtain ⟨told, -, made⟩ := List.mem_filterMap.mp searched
    cases told with
    | error failure =>
      cases made
      cases notice
    | ok told =>
      obtain ⟨-, same⟩ := Option.ite_none_right_eq_some.mp made
      cases same
      cases notice
  have parts : (scanFiles workspace base filter).notices =
      ignoreNotices filter.ignores ++ (resolveIncludes workspace base filter.includes).2 ++
        ((resolveIncludes workspace base filter.includes).1.flatMap
          (searchPath workspace base filter)).filterMap noticeOf? := rfl
  have unignored : ignoreNotices filter.ignores = [] := by
    rw [none]
    rfl
  rw [parts, unignored, List.nil_append, List.mem_append, or_iff_left (missed _), resolveIncludes]
  split
  next empty =>
    rw [List.isEmpty_iff.mp empty]
    exact iff_of_false List.not_mem_nil fun listed => List.not_mem_nil listed.1
  next =>
    dsimp only
    rw [List.flatMap_map, List.mem_flatMap]
    simp only [mem_notices_resolveInclude]
    constructor
    · rintro ⟨pattern, listed, rfl, reported⟩
      exact ⟨listed, reported⟩
    · rintro ⟨listed, reported⟩
      exact ⟨pattern, listed, rfl, reported⟩

/-- Behind the base, a pattern is reported only if it is invalid by itself. -/
theorem exists_notice_iff (suits : root.Suits pattern) (listed : pattern ∈ filter.includes)
    (none : filter.ignores = []) :
    (∃ problem, .invalidInclude pattern problem ∈
        (scanFiles root.workspace root.base filter).notices) ↔
      Glob.hasWildcard pattern = true ∧ (Glob.readExpansion pattern).toOption = Option.none := by
  simp only [mem_notices_scanFiles none, listed, true_and]
  constructor
  · rintro ⟨problem, wild, read⟩
    have joined := toOption_readExpansion_base suits wild
    rw [read] at joined
    exact ⟨wild, Option.map_eq_none_iff.mp joined.symm⟩
  · rintro ⟨wild, invalid⟩
    have joined := toOption_readExpansion_base suits wild
    rw [invalid] at joined
    cases read : Glob.readExpansion (Path.join root.base pattern) with
    | error problem => exact ⟨problem, wild, rfl⟩
    | ok expansion =>
      rw [read] at joined
      cases joined

/-! ### Two roots -/

/-- Below two roots with the same contents, the same files are found by includes that suit both
roots, and all of them lie below the root. Without includes it is enough that the paths of what is
below are not too long. A pattern is invalid behind a root only if it is invalid by itself. -/
theorem finds_iff_of_sameContents (root root' : SourceRoot) (filter : Filter)
    (same : root.SameContents root') (none : filter.ignores = [])
    (room : filter.includes = [] → root.HasRoom [])
    (room' : filter.includes = [] → root'.HasRoom [])
    (suits : ∀ pattern ∈ filter.includes, root.Suits pattern)
    (suits' : ∀ pattern ∈ filter.includes, root'.Suits pattern) :
    (∀ names, root.Finds filter names ↔ root'.Finds filter names) ∧
      (∀ path ∈ (scanFiles root.workspace root.base filter).files, ∃ names,
        root.workspace.target path = .ok (root.place ++ names)) ∧
      ∀ pattern ∈ filter.includes,
        (∃ problem, .invalidInclude pattern problem ∈
            (scanFiles root.workspace root.base filter).notices) ↔
          Glob.hasWildcard pattern = true ∧
            (Glob.readExpansion pattern).toOption = Option.none := by
  refine ⟨fun names => ⟨?_, ?_⟩, ?_, fun pattern listed =>
    exists_notice_iff (suits pattern listed) listed none⟩
  · exact finds_of_finds same none room room' suits suits'
  · exact finds_of_finds same.symm none room' room suits' suits
  · intro path found
    obtain ⟨names, leads, -⟩ := finds_of_sameContents same none room room' suits suits' found
    exact ⟨names, leads⟩

/-- A directory with a page in each of two directories. -/
def pagesIn (name : Text) : List (Location × Entry) :=
  [([name], .directory), ([name, "sub".toList], .directory),
    ([name, "sub".toList, "p.html".toList], .file []), ([name, "own".toList], .directory),
    ([name, "own".toList, "q.html".toList], .file [])]

/-- Three directories with the same contents, where one of the two inner directories is closed. -/
def sameDirectories : Workspace :=
  let names := ["web".toList, "w]".toList, "[x".toList]
  ⟨⟨names.flatMap pagesIn, names.map ([·, "own".toList])⟩, []⟩

theorem wellFormed_sameDirectories : sameDirectories.disk.WellFormed := by decide +kernel

theorem short_sameDirectories : ∀ entry ∈ sameDirectories.disk.entries, ∀ name ∈ entry.1,
    CodeUnit.size name ≤ nameLimit := by decide +kernel

def lettersRoot : SourceRoot where
  workspace := sameDirectories
  base := "./web".toList
  place := ["web".toList]
  wellFormed := wellFormed_sameDirectories
  short := short_sameDirectories
  located := rfl
  directory := rfl

def closingRoot : SourceRoot where
  workspace := sameDirectories
  base := "w]//".toList
  place := ["w]".toList]
  wellFormed := wellFormed_sameDirectories
  short := short_sameDirectories
  located := rfl
  directory := rfl

/-- A root whose name opens a class when it is read as a pattern. -/
def openingRoot : SourceRoot where
  workspace := sameDirectories
  base := "[x".toList
  place := ["[x".toList]
  wellFormed := wellFormed_sameDirectories
  short := short_sameDirectories
  located := rfl
  directory := rfl

/-- All directories and one of them, for pages. -/
def allDirectories : Filter := ⟨["*".toList, "sub".toList], [], ["html".toList]⟩

theorem sameContents_closingRoot : lettersRoot.SameContents closingRoot where
  entries := fun entry => by
    have contents : lettersRoot.contents = closingRoot.contents := by decide +kernel
    rw [contents]
  closed := fun names => by simp [IsClosed, lettersRoot, closingRoot, sameDirectories]

theorem sameContents_openingRoot : lettersRoot.SameContents openingRoot where
  entries := fun entry => by
    have contents : lettersRoot.contents = openingRoot.contents := by decide +kernel
    rw [contents]
  closed := fun names => by simp [IsClosed, lettersRoot, openingRoot, sameDirectories]

theorem finds_iff_sameDirectories :
    let names := ["sub".toList, "p.html".toList]
    lettersRoot.SameContents closingRoot ∧ allDirectories.ignores = [] ∧
      lettersRoot.HasRoom [] ∧ closingRoot.HasRoom [] ∧
      (∀ pattern ∈ allDirectories.includes, lettersRoot.Suits pattern) ∧
      (∀ pattern ∈ allDirectories.includes, closingRoot.Suits pattern) ∧
      lettersRoot.Finds allDirectories names ∧ closingRoot.Finds allDirectories names := by
  intro names
  have room : lettersRoot.HasRoom [] := by decide +kernel
  have room' : closingRoot.HasRoom [] := by decide +kernel
  have suits : ∀ pattern ∈ allDirectories.includes, lettersRoot.Suits pattern := by
    decide +kernel
  have suits' : ∀ pattern ∈ allDirectories.includes, closingRoot.Suits pattern := by
    decide +kernel
  obtain ⟨finds, -⟩ := finds_iff_of_sameContents lettersRoot closingRoot allDirectories
    sameContents_closingRoot rfl (fun _ => room) (fun _ => room') suits suits'
  have found : lettersRoot.Finds allDirectories names :=
    ⟨"web/sub/p.html".toList, by decide +kernel, rfl⟩
  exact ⟨sameContents_closingRoot, rfl, room, room', suits, suits', found, (finds names).mp found⟩

/-- Behind the root whose name opens a class, the valid pattern is invalid, and nothing is found. -/
theorem not_finds_iff :
    ¬ ∀ (root root' : SourceRoot) (filter : Filter), root.SameContents root' →
      filter.ignores = [] →
      (∀ pattern ∈ filter.includes, Path.isAbsolute pattern = false ∧ Path.NoParents pattern) →
        ∀ names, root.Finds filter names ↔ root'.Finds filter names := by
  intro independent
  have finds := independent lettersRoot openingRoot ⟨["*".toList], [], ["html".toList]⟩
    sameContents_openingRoot rfl (by decide +kernel) ["sub".toList, "p.html".toList]
  obtain ⟨path, found, -⟩ := finds.mp ⟨"web/sub/p.html".toList, by decide +kernel, rfl⟩
  have nothing : (scanFiles sameDirectories "[x".toList
      ⟨["*".toList], [], ["html".toList]⟩).files = [] := by decide +kernel
  rw [openingRoot, nothing] at found
  cases found

end SourceRoot
end KeyHarvest
