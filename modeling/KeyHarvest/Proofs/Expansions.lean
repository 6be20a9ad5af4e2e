import KeyHarvest.Proofs.PatternFronts
import KeyHarvest.Proofs.Walks

/-!
# Expansions below source roots

An expansion follows its steps from path to path. Below two roots with the same contents, paths that
lead to the same names (`SourceRoot.Meet`) are found with the same names by every step that stays
below, and so by a whole expansion (`SourceRoot.exists_of_mem_expandFrom`). The base itself is
followed component by component to its place (`SourceRoot.exists_path_of_base`), after which the
steps of a pattern are the same for both roots.
-/
namespace KeyHarvest

namespace Glob
open Workspace

/-- Whether an expansion goes on along a name. -/
def isFollowed (workspace : Workspace) (name path : Text) : Bool :=
  if name = ['.'] ∨ name = ['.', '.'] then workspace.isDirectory path
  else workspace.isPresent (pathIn path name)

section
variable {workspace : Workspace} {directoriesOnly : Bool} {rest : List Step} {path : Text}

theorem expandFrom_literal {name : Text} :
    expandFrom workspace directoriesOnly (.literal name :: rest) path =
      if isFollowed workspace name path then
        expandFrom workspace directoriesOnly rest (pathIn path name)
      else [] := by
  rw [expandFrom]
  rfl

theorem expandFrom_wild {tokens : List Token} (none : specialNames tokens = []) :
    expandFrom workspace directoriesOnly (.wild tokens :: rest) path =
      (((namesBelow workspace path false).filter fun names =>
        names.any (matchTokens tokens)).map (pathThrough path)).flatMap
          (expandFrom workspace directoriesOnly rest) := by
  rw [expandFrom, none]
  simp

end

/-! ### Steps from idle paths -/

section
variable {path name : Text} {rest : List Step}

/-- The empty name leads on from no idle path. -/
theorem ne_nil_of_anchorsSteps (firm : IsIdle path → anchorsSteps (.literal name :: rest) = true)
    (here : isHere path = true) : name ≠ [] := by
  rintro rfl
  cases firm (isIdle_of_isHere here)

theorem anchorsSteps_of_isIdle (closed : '/' ∉ name)
    (firm : IsIdle path → anchorsSteps (.literal name :: rest) = true)
    (idle : IsIdle (pathIn path name)) : anchorsSteps rest = true := by
  obtain ⟨before, skipped⟩ := isIdle_pathIn closed idle
  have anchored := firm before
  rcases skipped with rfl | rfl
  · cases anchored
  · exact anchored

theorem anchorsSteps_append {front parts : List Text}
    (anchored : Path.anchors (front ++ parts) = true)
    (later : Path.anchors parts = true → anchorsSteps rest = true) :
    anchorsSteps (front.map .literal ++ rest) = true := by
  induction front with
  | nil => exact later anchored
  | cons piece front ih =>
    rw [List.cons_append, Path.anchors] at anchored
    rw [List.map_cons, List.cons_append, anchorsSteps]
    split
    next point => exact ih (by rwa [if_pos point] at anchored)
    next other => rwa [if_neg other] at anchored

end

/-! ### Following one name -/

section
variable {workspace : Workspace} {path name : Text} {place next : Location}

theorem isFollowed_of_leads {room : Nat} (wellFormed : workspace.disk.WellFormed)
    (leads : workspace.Leads path place room) (one : IsPiece name)
    (firm : isHere path = true → name ≠ [])
    (follows : workspace.disk.follow place [name] = .ok next)
    (bound : room + CodeUnit.size name + 1 ≤ pathLimit) : isFollowed workspace name path = true := by
  rw [isFollowed]
  split
  · have directory := Disk.directory_of_follow_start (List.cons_ne_nil name []) follows
    rw [isDirectory, entryAt_eq_ok_iff.mpr ⟨leads.locate (by omega), directory⟩]
  · have there := leads.pathIn wellFormed one firm follows
    obtain ⟨entry, found⟩ := there.holds
    rw [isPresent, entryAt_eq_ok_iff.mpr ⟨there.locate bound, found⟩]
    rfl

/-- An expansion goes on only along names that lead somewhere. -/
theorem exists_of_isFollowed (leads : workspace.target path = .ok place) (closed : '/' ∉ name)
    (straight : name ≠ ['.', '.']) (followed : isFollowed workspace name path = true) :
    (isHere path = true → name ≠ []) ∧ ∃ next, workspace.disk.follow place [name] = .ok next := by
  rw [isFollowed] at followed
  by_cases point : name = ['.']
  · -- A point stays at the directory.
    rw [if_pos (.inl point)] at followed
    subst point
    refine ⟨fun _ => List.cons_ne_nil _ _, place, Disk.follow_point ?_⟩
    rw [isDirectory] at followed
    split at followed
    next place' found =>
      obtain ⟨located, directory⟩ := entryAt_eq_ok_iff.mp found
      rw [(target_of_locate located).1] at leads
      cases leads
      exact directory
    next => cases followed
  · rw [if_neg (not_or.mpr ⟨point, straight⟩)] at followed
    obtain ⟨next, entry, located, -⟩ := exists_of_isPresent followed
    obtain ⟨target, filled⟩ := target_of_locate located
    rw [target_pathIn leads closed] at target
    refine ⟨?_, next, target⟩
    rintro here rfl
    rw [pathIn, if_pos here] at filled
    exact filled rfl

end

end Glob

namespace SourceRoot
open Workspace

variable {root root' : SourceRoot} {path path' : Text} {names others : List Text}
  {spent bound : Nat}

/-! ### What stands below a root -/

/-- What the names lead to from the root. -/
def standing (root : SourceRoot) (names : List Text) : Option Entry :=
  root.workspace.disk.entry? (root.place ++ names)

theorem mem_contents_iff {entry : Entry} :
    (names, entry) ∈ root.contents ↔ names ≠ [] ∧ root.standing names = some entry := by
  rw [contents, List.mem_map]
  constructor
  · rintro ⟨⟨location, entry⟩, listed, same⟩
    obtain ⟨names, filled, rfl, found⟩ := (Disk.mem_below_iff root.wellFormed).mp listed
    rw [List.drop_left] at same
    cases same
    exact ⟨filled, found⟩
  · rintro ⟨filled, found⟩
    refine ⟨(root.place ++ names, entry), ?_, by rw [List.drop_left]⟩
    exact (Disk.mem_below_iff root.wellFormed).mpr ⟨names, filled, rfl, found⟩

theorem standing_nil (root : SourceRoot) : root.standing [] = some .directory := by
  rw [standing, List.append_nil]
  exact root.directory

theorem standing_eq (same : root.SameContents root') (names : List Text) :
    root.standing names = root'.standing names := by
  by_cases filled : names = []
  · rw [filled, standing_nil, standing_nil]
  · apply Option.ext
    intro entry
    have listed := same.entries (names, entry)
    rw [mem_contents_iff, mem_contents_iff] at listed
    simpa [filled] using listed

theorem SameContents.symm (same : root.SameContents root') : root'.SameContents root :=
  ⟨fun entry => (same.entries entry).symm, fun names => (same.closed names).symm⟩

/-- Without a component that leads back up, the same pieces lead to the same names. -/
theorem follow_of_sameContents (same : root.SameContents root') {before parts : List Text}
    {place : Location} (straight : ['.', '.'] ∉ parts)
    (leads : root.workspace.disk.follow (root.place ++ before) parts = .ok place) :
    ∃ names, before <+: names ∧ place = root.place ++ names ∧
      root'.workspace.disk.follow (root'.place ++ before) parts = .ok (root'.place ++ names) := by
  induction parts generalizing before with
  | nil =>
    cases leads
    exact ⟨before, List.prefix_rfl, rfl, rfl⟩
  | cons part parts ih =>
    rw [List.mem_cons, not_or] at straight
    obtain ⟨directory, next, turn, leads⟩ := Disk.follow_cons_eq_ok_iff.mp leads
    have directory' : root'.workspace.disk.entry? (root'.place ++ before) = some .directory :=
      (standing_eq same before).symm.trans directory
    -- What a turn asks of the tree is asked below the root, where both trees are the same.
    cases turn with
    | stay skipped =>
      obtain ⟨names, inside, there, leads'⟩ := ih straight.2 leads
      exact ⟨names, inside, there,
        Disk.follow_cons_eq_ok_iff.mpr ⟨directory', _, .stay skipped, leads'⟩⟩
    | back => exact absurd rfl straight.1
    | enter kept other fits holds =>
      rw [List.append_assoc] at leads
      obtain ⟨names, inside, there, leads'⟩ := ih straight.2 leads
      obtain ⟨entry, found⟩ := holds
      have found' : root'.workspace.disk.entry? (root'.place ++ before ++ [part]) = some entry := by
        rw [List.append_assoc] at found ⊢
        exact (standing_eq same (before ++ [part])).symm.trans found
      rw [← List.append_assoc] at leads'
      exact ⟨names, (List.prefix_append before [part]).trans inside, there,
        Disk.follow_cons_eq_ok_iff.mpr ⟨directory', _, .enter kept other fits ⟨entry, found'⟩, leads'⟩⟩

/-! ### Paths to the same names -/

/-- The path leads to the names below the root, and apart from the base and the names it is not
longer than what was spent on it. -/
def Stands (root : SourceRoot) (path : Text) (names : List Text) (spent : Nat) : Prop :=
  root.workspace.Leads path (root.place ++ names)
    (CodeUnit.size root.base + 2 + spent + lengthOf names)

/-- Paths on which no more is spent are short enough. -/
def Fits (root : SourceRoot) (bound : Nat) : Prop :=
  ∀ names entry, root.standing names = some entry →
    CodeUnit.size root.base + 2 + bound + lengthOf names ≤ pathLimit

theorem fits_of_hasRoom {pattern : Text} (room : root.HasRoom pattern) :
    root.Fits (CodeUnit.size pattern + 1) := by
  intro names entry found
  have listed : names ∈ [] :: root.contents.map (·.1) := by
    by_cases filled : names = []
    · rw [filled]
      exact List.mem_cons_self
    · refine List.mem_cons_of_mem _ (List.mem_map.mpr ⟨(names, entry), ?_, rfl⟩)
      exact mem_contents_iff.mpr ⟨filled, found⟩
  have fits := room names listed
  have shorter := lengthOf_le_size names
  omega

theorem Stands.locate (stands : root.Stands path names spent) (fits : root.Fits bound)
    (enough : spent ≤ bound) : root.workspace.locate path = .ok (root.place ++ names) := by
  obtain ⟨entry, found⟩ := Leads.holds stands
  have room := fits names entry found
  exact Leads.locate stands (by omega)

theorem Stands.entryAt (stands : root.Stands path names spent) (fits : root.Fits bound)
    (enough : spent ≤ bound) {entry : Entry} (found : root.standing names = some entry) :
    root.workspace.entryAt path = .ok (root.place ++ names, entry) :=
  entryAt_eq_ok_iff.mpr ⟨stands.locate fits enough, found⟩

theorem Stands.isPresent (stands : root.Stands path names spent) (fits : root.Fits bound)
    (enough : spent ≤ bound) : root.workspace.isPresent path = true := by
  obtain ⟨entry, found⟩ := Leads.holds stands
  rw [Workspace.isPresent, stands.entryAt fits enough found]
  rfl

theorem Stands.mono {spent' : Nat} (stands : root.Stands path names spent)
    (more : spent ≤ spent') : root.Stands path names spent' :=
  Leads.mono stands (by omega)

theorem Stands.isDirectory_iff (stands : root.Stands path names spent) (fits : root.Fits bound)
    (enough : spent ≤ bound) :
    root.workspace.isDirectory path = true ↔ root.standing names = some .directory := by
  obtain ⟨entry, found⟩ := Leads.holds stands
  have found' : root.standing names = some entry := found
  rw [Workspace.isDirectory, stands.entryAt fits enough found, found']
  cases entry <;> simp

/-- The names below a directory are those of the entries there, as far as these can be listed. -/
theorem mem_namesBelow_of_directory {workspace : Workspace} {place : Location}
    (wellFormed : workspace.disk.WellFormed) {deep : Bool}
    (directory : workspace.entryAt path = .ok (place, .directory)) :
    others ∈ Glob.namesBelow workspace path deep ↔
      others ≠ [] ∧ (deep = false → others.length = 1) ∧
        (∃ entry, workspace.disk.entry? (place ++ others) = some entry) ∧
        ∀ front, front <+: others → front ≠ others →
          place ++ front ∉ workspace.disk.closed := by
  have shallow : ∀ entry, entry ∈ (if deep then workspace.disk.listed place
        else workspace.disk.children place) ↔
      entry ∈ workspace.disk.listed place ∧
        (deep = false → entry.1.length = place.length + 1) := by
    intro entry
    cases deep <;> simp [Disk.children]
  rw [Glob.namesBelow, directory]
  dsimp only
  rw [List.mem_map]
  constructor
  · rintro ⟨⟨location, entry⟩, member, rfl⟩
    obtain ⟨below, one⟩ := (shallow _).mp member
    obtain ⟨names, filled, rfl, found, opens⟩ := (Disk.mem_listed_iff wellFormed).mp below
    rw [List.drop_left]
    refine ⟨filled, fun only => ?_, ⟨entry, found⟩, opens⟩
    have length := one only
    rw [List.length_append] at length
    omega
  · rintro ⟨filled, one, ⟨entry, found⟩, opens⟩
    refine ⟨(place ++ others, entry), (shallow _).mpr ⟨?_, fun only => ?_⟩, by simp⟩
    · exact (Disk.mem_listed_iff wellFormed).mpr ⟨others, filled, rfl, found, opens⟩
    · rw [List.length_append, one only]

theorem Stands.mem_namesBelow_iff (stands : root.Stands path names spent) (fits : root.Fits bound)
    (enough : spent ≤ bound) {deep : Bool} :
    others ∈ Glob.namesBelow root.workspace path deep ↔
      others ≠ [] ∧ (deep = false → others.length = 1) ∧
        (∃ entry, root.standing (names ++ others) = some entry) ∧
        ∀ front, front <+: others → front ≠ others → ¬ root.IsClosed (names ++ front) := by
  simp only [standing, IsClosed, ← List.append_assoc]
  obtain ⟨first, found⟩ := Leads.holds stands
  have there := stands.entryAt fits enough found
  cases first with
  | directory => exact mem_namesBelow_of_directory root.wellFormed there
  | file content =>
    -- Nothing is below a file.
    have none : Glob.namesBelow root.workspace path deep = [] := by
      rw [Glob.namesBelow, there]
    rw [none]
    refine iff_of_false List.not_mem_nil ?_
    rintro ⟨filled, -, ⟨entry, inside⟩, -⟩
    rw [Disk.directory_of_holds root.wellFormed filled ⟨entry, inside⟩] at found
    cases found

theorem Stands.pathThrough (stands : root.Stands path names spent)
    (holds : ∃ entry, root.standing (names ++ others) = some entry) :
    root.Stands (Glob.pathThrough path others) (names ++ others) spent := by
  obtain ⟨entry, found⟩ := holds
  rw [standing, ← List.append_assoc] at found
  have through := Leads.pathThrough root.wellFormed root.short stands ⟨entry, found⟩
  rw [Stands, ← List.append_assoc, lengthOf_append, ← Nat.add_assoc]
  exact through

/-- A step along one piece costs its bytes and a separator. -/
theorem Stands.pathIn {names' : List Text} {name : Text} (stands : root.Stands path names spent)
    (one : IsPiece name) (firm : Glob.isHere path = true → name ≠ []) (before : names <+: names')
    (follows : root.workspace.disk.follow (root.place ++ names) [name] =
      .ok (root.place ++ names')) :
    root.Stands (Glob.pathIn path name) names' (spent + (CodeUnit.size name + 1)) := by
  apply Leads.mono (Leads.pathIn root.wellFormed stands one firm follows)
  obtain ⟨others, rfl⟩ := before
  rw [lengthOf_append]
  omega

/-! ### Steps from paths to the same names -/

/-- Two paths lead to the same names below two roots. -/
structure Meet (root root' : SourceRoot) (names : List Text) (spent : Nat) (path path' : Text) :
    Prop where
  left : root.Stands path names spent
  right : root'.Stands path' names spent

theorem Meet.mono {spent' : Nat} (meet : Meet root root' names spent path path')
    (more : spent ≤ spent') : Meet root root' names spent' path path' :=
  ⟨meet.left.mono more, meet.right.mono more⟩

section
variable (same : root.SameContents root') (fits : root.Fits bound) (fits' : root'.Fits bound)
include same

theorem Meet.pathThrough (meet : Meet root root' names spent path path')
    (holds : ∃ entry, root.standing (names ++ others) = some entry) :
    Meet root root' (names ++ others) spent (Glob.pathThrough path others)
      (Glob.pathThrough path' others) := by
  refine ⟨meet.left.pathThrough holds, meet.right.pathThrough ?_⟩
  rwa [← standing_eq same]

include fits'

/-- A step along a name is taken from both paths or from none, and leads to the same names. -/
theorem Meet.literal {name : Text} {rest : List Glob.Step}
    (meet : Meet root root' names spent path path')
    (enough : spent + (CodeUnit.size name + 1) ≤ bound)
    (below : (Glob.Step.literal name).StaysBelow)
    (firm : IsIdle path' → Glob.anchorsSteps (.literal name :: rest) = true)
    (followed : Glob.isFollowed root.workspace name path = true) :
    Glob.isFollowed root'.workspace name path' = true ∧
      ∃ names', Meet root root' names' (spent + (CodeUnit.size name + 1)) (Glob.pathIn path name)
        (Glob.pathIn path' name) := by
  obtain ⟨straight, closed⟩ := below
  obtain ⟨some, next, follows⟩ :=
    Glob.exists_of_isFollowed (Leads.target meet.left) closed straight followed
  have some' := Glob.ne_nil_of_anchorsSteps firm
  have one : IsPiece name := ⟨closed, Disk.plain_of_follow root.wellFormed follows⟩
  obtain ⟨names', before, rfl, follows'⟩ :=
    follow_of_sameContents same (by simpa using straight.symm) follows
  -- The path behind the step is short enough, as the one of the place that it starts from is.
  obtain ⟨entry, stands⟩ := Leads.holds meet.right
  have room := fits' names entry stands
  refine ⟨?_, names', meet.left.pathIn one some before follows,
    meet.right.pathIn one some' before follows'⟩
  exact Glob.isFollowed_of_leads root'.wellFormed meet.right one some' follows' (by omega)

include fits

theorem Meet.isDirectory_iff (meet : Meet root root' names spent path path')
    (enough : spent ≤ bound) :
    root.workspace.isDirectory path = true ↔ root'.workspace.isDirectory path' = true := by
  rw [meet.left.isDirectory_iff fits enough, meet.right.isDirectory_iff fits' enough,
    standing_eq same]

/-- What is named below one path is named below the other, and the names lead to the same. -/
theorem Meet.below (meet : Meet root root' names spent path path') (enough : spent ≤ bound)
    {deep : Bool} (found : others ∈ Glob.namesBelow root.workspace path deep) :
    others ∈ Glob.namesBelow root'.workspace path' deep ∧
      Meet root root' (names ++ others) spent (Glob.pathThrough path others)
        (Glob.pathThrough path' others) ∧
      ¬ IsIdle (Glob.pathThrough path' others) := by
  obtain ⟨filled, one, ⟨entry, stands⟩, opens⟩ :=
    (meet.left.mem_namesBelow_iff fits enough).mp found
  refine ⟨?_, meet.pathThrough same ⟨entry, stands⟩, ?_⟩
  · rw [standing_eq same] at stands
    refine (meet.right.mem_namesBelow_iff fits' enough).mpr ⟨filled, one, ⟨entry, stands⟩, ?_⟩
    exact fun front before other closed =>
      opens front before other ((same.closed (names ++ front)).mpr closed)
  · apply not_isIdle_pathThrough filled
    intro name member
    rw [standing, ← List.append_assoc] at stands
    exact (Disk.isName_of_holds root.wellFormed ⟨entry, stands⟩ name
      (List.mem_append_right _ member)).1

/-- A step to entries below, chosen by their names, leads to the same names from both paths. -/
theorem Meet.named (meet : Meet root root' names spent path path') (enough : spent ≤ bound)
    {deep : Bool} {chosen : List Text → Bool} {next : Text}
    (named : next ∈ ((Glob.namesBelow root.workspace path deep).filter chosen).map
      (Glob.pathThrough path)) :
    ∃ names' next', Meet root root' names' spent next next' ∧ ¬ IsIdle next' ∧
      next' ∈ ((Glob.namesBelow root'.workspace path' deep).filter chosen).map
        (Glob.pathThrough path') := by
  obtain ⟨others, listed, rfl⟩ := List.mem_map.mp named
  obtain ⟨listed, chosen⟩ := List.mem_filter.mp listed
  obtain ⟨listed', next, busy⟩ := meet.below same fits fits' enough listed
  refine ⟨names ++ others, _, next, busy, ?_⟩
  exact List.mem_map_of_mem (List.mem_filter.mpr ⟨listed', chosen⟩)

/-- What an expansion finds below one root, it finds below the other under the same names. -/
theorem exists_of_mem_expandFrom {directoriesOnly : Bool} {steps : List Glob.Step} {found : Text}
    (below : ∀ step ∈ steps, step.StaysBelow)
    (enough : spent + (steps.map Glob.Step.cost).sum ≤ bound)
    (firm : IsIdle path' → Glob.anchorsSteps steps = true)
    (meet : Meet root root' names spent path path')
    (expanded : found ∈ Glob.expandFrom root.workspace directoriesOnly steps path) :
    ∃ names' found', Meet root root' names' bound found found' ∧
      found' ∈ Glob.expandFrom root'.workspace directoriesOnly steps path' := by
  -- Behind `**` two steps are taken at once, so the induction is on the number of steps.
  induction length : steps.length using Nat.strongRecOn
    generalizing steps names spent path path' with
  | ind count ih =>
    subst length
    match steps with
    | [] =>
      rw [Glob.expandFrom] at expanded ⊢
      have directories := meet.isDirectory_iff same fits fits' (by omega)
      rw [Bool.eq_iff_iff.mpr directories] at expanded
      split at expanded
      · cases expanded
      next kept =>
        rw [List.mem_singleton.mp expanded, if_neg kept]
        exact ⟨names, path', meet.mono (by omega), List.mem_singleton_self path'⟩
    | .literal name :: rest =>
      obtain ⟨first, others⟩ := List.forall_mem_cons.mp below
      rw [List.map_cons, List.sum_cons, Glob.Step.cost] at enough
      rw [Glob.expandFrom_literal] at expanded ⊢
      obtain ⟨followed, expanded⟩ := List.mem_ite_nil_right.mp expanded
      -- Only such a step makes the path longer than its names, by what the name costs.
      obtain ⟨followed', names', next⟩ :=
        meet.literal same fits' (by omega) first firm followed
      rw [if_pos followed']
      have firm' := Glob.anchorsSteps_of_isIdle first.2 firm
      exact ih _ (Nat.lt_succ_self _) others (by omega) firm' next expanded rfl
    | .wild tokens :: rest =>
      obtain ⟨first, others⟩ := List.forall_mem_cons.mp below
      rw [List.map_cons, List.sum_cons, Glob.Step.cost] at enough
      rw [Glob.expandFrom_wild first] at expanded ⊢
      obtain ⟨next, named, expanded⟩ := List.mem_flatMap.mp expanded
      obtain ⟨between, next', meets, busy, named'⟩ := meet.named same fits fits' (by omega) named
      obtain ⟨names', found', final, expanded'⟩ := ih _ (Nat.lt_succ_self _) others (by omega)
        (fun idle => absurd idle busy) meets expanded rfl
      exact ⟨names', found', final, List.mem_flatMap.mpr ⟨next', named', expanded'⟩⟩
    | [.anyDepth] =>
      rw [Glob.expandFrom] at expanded ⊢
      obtain ⟨named, directory⟩ := List.mem_filter.mp expanded
      obtain ⟨inner, listed, rfl⟩ := List.mem_map.mp named
      obtain ⟨listed', next, -⟩ := meet.below same fits fits' (by omega) listed
      rw [next.isDirectory_iff same fits fits' (by omega)] at directory
      exact ⟨names ++ inner, _, next.mono (by omega),
        List.mem_filter.mpr ⟨List.mem_map_of_mem listed', directory⟩⟩
    | .anyDepth :: step :: rest =>
      have later : ∀ step ∈ rest, step.StaysBelow :=
        fun step member => below step (List.mem_cons_of_mem _ (List.mem_cons_of_mem _ member))
      rw [List.map_cons, List.map_cons, List.sum_cons, List.sum_cons] at enough
      rw [Glob.expandFrom] at expanded ⊢
      obtain ⟨next, named, expanded⟩ := List.mem_flatMap.mp expanded
      obtain ⟨between, next', meets, busy, named'⟩ := meet.named same fits fits' (by omega) named
      obtain ⟨names', found', final, expanded'⟩ :=
        ih _ (Nat.lt_succ_of_lt (Nat.lt_succ_self _)) later (by omega)
          (fun idle => absurd idle busy) meets expanded rfl
      exact ⟨names', found', final, List.mem_flatMap.mpr ⟨next', named', expanded'⟩⟩

end

/-! ### The base -/

/-- An expansion goes along the components of a path that leads somewhere. -/
theorem exists_path_of_follow {workspace : Workspace} {place next : Location} {room : Nat}
    {parts : List Text} {steps : List Glob.Step} (wellFormed : workspace.disk.WellFormed)
    (leads : workspace.Leads path place room) (all : ∀ part ∈ parts, IsPiece part)
    (firm : IsIdle path → Glob.anchorsSteps (parts.map .literal ++ steps) = true)
    (follows : workspace.disk.follow place parts = .ok next)
    (enough : room + lengthOf parts ≤ pathLimit) :
    ∃ path', workspace.Leads path' next (room + lengthOf parts) ∧
      (IsIdle path' → Glob.anchorsSteps steps = true) ∧ ∀ directoriesOnly,
        Glob.expandFrom workspace directoriesOnly (parts.map .literal ++ steps) path =
          Glob.expandFrom workspace directoriesOnly steps path' := by
  induction parts generalizing path place room with
  | nil =>
    cases follows
    exact ⟨path, leads, firm, fun _ => rfl⟩
  | cons part parts ih =>
    obtain ⟨one, others⟩ := List.forall_mem_cons.mp all
    have length : lengthOf (part :: parts) = CodeUnit.size part + 1 + lengthOf parts := rfl
    rw [length] at enough ⊢
    rw [← List.singleton_append] at follows
    obtain ⟨between, first, later⟩ := Disk.follow_append_eq_ok_iff.mp follows
    have some := Glob.ne_nil_of_anchorsSteps firm
    have firm' := Glob.anchorsSteps_of_isIdle one.closed firm
    obtain ⟨path', leads', firm', expanded⟩ :=
      ih (leads.pathIn wellFormed one some first) others firm' later (by omega)
    have followed := Glob.isFollowed_of_leads wellFormed leads one some first (by omega)
    refine ⟨path', leads'.mono (by omega), firm', fun directoriesOnly => ?_⟩
    rw [List.map_cons, List.cons_append, Glob.expandFrom_literal, if_pos followed]
    exact expanded directoriesOnly

/-- The components of the base are followed from the root directory or the working directory. -/
theorem exists_start (root : SourceRoot) :
    ∃ location, root.workspace.Leads (if Path.isAbsolute root.base then ['/'] else ['.'])
        location 1 ∧
      root.workspace.disk.follow location (Glob.piecesTerminated (Path.body root.base)) =
        .ok root.place := by
  obtain ⟨target, filled⟩ := target_of_locate root.located
  rw [Workspace.target] at target
  cases absolute : Path.isAbsolute root.base with
  | true =>
    obtain ⟨c, rest, base⟩ := List.exists_cons_of_ne_nil filled
    obtain rfl : c = '/' := by simpa [base, Path.isAbsolute] using absolute
    have body : Path.body root.base = rest := by
      rw [base]
      rfl
    rw [absolute, if_pos rfl, base, Path.pieces_cons, if_pos rfl] at target
    exact ⟨[], ⟨by decide, by decide, rfl, ⟨_, rfl⟩, by decide⟩,
      Disk.follow_piecesTerminated (body ▸ target)⟩
  | false =>
    rw [absolute, if_neg Bool.false_ne_true] at target
    have directory := Disk.directory_of_follow_start (Path.pieces_ne_nil _) target
    refine ⟨root.workspace.here, ⟨by decide, by decide, ?_, ⟨_, directory⟩, by decide⟩, ?_⟩
    · exact Disk.follow_point directory
    · rw [Path.body_of_relative absolute]
      exact Disk.follow_piecesTerminated target

/-- The components of the base lead to a path of the root, from which the steps behind them are
taken. -/
theorem exists_path_of_base {pattern : Text} {steps : List Glob.Step} (fits : root.Fits bound)
    (relative : Path.isAbsolute pattern = false)
    (anchored : Path.IsAnchored (Path.join root.base pattern))
    (behind : Path.anchors (pieces Path.isSeparator pattern) = true →
      Glob.anchorsSteps steps = true) :
    ∃ path, root.Stands path [] 0 ∧ (IsIdle path → Glob.anchorsSteps steps = true) ∧
      ∀ directoriesOnly, Glob.expandFrom root.workspace directoriesOnly
          ((Glob.piecesTerminated (Path.body root.base)).map .literal ++ steps)
          (if Path.isAbsolute root.base then ['/'] else ['.']) =
        Glob.expandFrom root.workspace directoriesOnly steps path := by
  obtain ⟨location, start, follows⟩ := root.exists_start
  have based := leads_of_locate root.wellFormed root.located
  have all : ∀ part ∈ Glob.piecesTerminated (Path.body root.base), IsPiece part := by
    intro part member
    have listed := Glob.mem_of_mem_piecesTerminated member
    have inside : part ⊆ root.base :=
      List.Subset.trans (Path.subset_of_mem_pieces listed) (Path.body_subset root.base)
    refine ⟨?_, fun nul => based.plain (inside nul)⟩
    intro separator
    cases not_separator_of_mem_pieces listed '/' separator
  have firm : IsIdle (if Path.isAbsolute root.base then ['/'] else ['.']) →
      Glob.anchorsSteps
        ((Glob.piecesTerminated (Path.body root.base)).map .literal ++ steps) = true := by
    -- From the root no path is idle.
    cases within : Path.isAbsolute root.base with
    | true => exact fun idle => absurd idle.1 (by decide)
    | false =>
      intro _
      exact Glob.anchorsSteps_append
        (Glob.anchors_of_isAnchored based.filled relative anchored within) behind
  have shorter : lengthOf (Glob.piecesTerminated (Path.body root.base)) ≤
      CodeUnit.size root.base + 1 :=
    Nat.le_trans (Glob.sum_size_piecesTerminated_le _) (Nat.succ_le_succ (Path.size_body_le _))
  -- The root itself fits, and its path is at least as long as that of the components.
  have room : CodeUnit.size root.base + 2 + bound + 0 ≤ pathLimit :=
    fits [] .directory root.standing_nil
  obtain ⟨path, leads, firm', expanded⟩ :=
    exists_path_of_follow root.wellFormed start all firm follows (by omega)
  refine ⟨path, ?_, firm', expanded⟩
  rw [Stands, List.append_nil]
  exact leads.mono (by omega)

end SourceRoot
end KeyHarvest
