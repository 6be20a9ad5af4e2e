import KeyHarvest.Proofs.PathPieces
import KeyHarvest.Proofs.Discovered
import Mathlib.Data.List.Induction

/-!
# Paths that lead to entries

In a well-formed tree a path leads to an entry, and every entry is led to by its names. A path to a
file ends in the name of the file (`Workspace.fileName?_of_file`). `Workspace.Leads` says of a path
that it can be followed and of how many bytes it is; it is kept by a name that is joined. In the
working directory a bare name takes the place of the path, so there it must not be empty
(`Workspace.Leads.pathIn`); only an idle path leads there (`Workspace.isIdle_pathIn`).
-/
namespace KeyHarvest

namespace Disk

/-- There is an entry at the location. -/
def Holds (disk : Disk) (location : Location) : Prop := ∃ entry, disk.entry? location = some entry

variable {disk : Disk} {location place : Location} {names : List Text}

theorem find?_of_mem {entries : List (Location × Entry)} {entry : Entry}
    (once : (entries.map (·.1)).Nodup) (member : (location, entry) ∈ entries) :
    entries.find? (·.1 = location) = some (location, entry) := by
  induction entries with
  | nil => cases member
  | cons first entries ih =>
    rw [List.map_cons, List.nodup_cons] at once
    rcases List.mem_cons.mp member with rfl | member
    · simp
    · have other : first.1 ≠ location := by
        rintro rfl
        exact once.1 (List.mem_map.mpr ⟨_, member, rfl⟩)
      rw [List.find?_cons_of_neg (by simpa using other)]
      exact ih once.2 member

theorem mem_entries_iff (wellFormed : disk.WellFormed) {entry : Entry} (inside : location ≠ []) :
    (location, entry) ∈ disk.entries ↔ disk.entry? location = some entry := by
  unfold entry?
  rw [if_neg inside, Option.map_eq_some_iff]
  constructor
  · intro member
    exact ⟨(location, entry), find?_of_mem wellFormed.once member, rfl⟩
  · rintro ⟨⟨location', entry⟩, found, rfl⟩
    obtain rfl : location' = location := by simpa using List.find?_some found
    exact List.mem_of_find?_eq_some found

theorem directory_dropLast (wellFormed : disk.WellFormed) (holds : disk.Holds location) :
    disk.entry? location.dropLast = some .directory := by
  by_cases root : location = []
  · rw [root]
    rfl
  · obtain ⟨entry, found⟩ := holds
    have member := (mem_entries_iff wellFormed root).mpr found
    rw [← List.dropLast_concat_getLast root] at member
    exact wellFormed.inDirectory _ _ entry member

/-- Everything stands in a directory, and that in a directory, up to the root. -/
theorem directory_of_holds (wellFormed : disk.WellFormed) (filled : names ≠ [])
    (holds : disk.Holds (location ++ names)) : disk.entry? location = some .directory := by
  induction names using List.reverseRecOn with
  | nil => exact absurd rfl filled
  | append_singleton names name ih =>
    -- Above the last name is a directory, and so on up to the location.
    have above := directory_dropLast wellFormed holds
    rw [← List.append_assoc, List.dropLast_concat] at above
    by_cases first : names = []
    · rwa [first, List.append_nil] at above
    · exact ih first ⟨_, above⟩

theorem isName_of_holds (wellFormed : disk.WellFormed) (holds : disk.Holds location) :
    ∀ name ∈ location, Path.IsName name ∧ '\x00' ∉ name := by
  intro name member
  obtain ⟨entry, found⟩ := holds
  have listed := (mem_entries_iff wellFormed (List.ne_nil_of_mem member)).mpr found
  obtain ⟨one, plain, other⟩ := (wellFormed.named _ _ listed).2 name member
  exact ⟨⟨one, plain⟩, other⟩

theorem mem_below_iff (wellFormed : disk.WellFormed) {entry : Entry} :
    (location, entry) ∈ disk.below place ↔
      ∃ names, names ≠ [] ∧ location = place ++ names ∧ disk.entry? location = some entry := by
  have inside : ∀ {names : List Text}, names ≠ [] → place ++ names ≠ [] :=
    fun filled => List.append_ne_nil_of_right_ne_nil place filled
  rw [below, List.mem_filter, Bool.and_eq_true, List.isPrefixOf_iff_prefix, decide_eq_true_eq]
  constructor
  · rintro ⟨listed, ⟨names, rfl⟩, longer⟩
    have filled : names ≠ [] := by
      rintro rfl
      rw [List.append_nil] at longer
      exact absurd longer (Nat.lt_irrefl _)
    exact ⟨names, filled, rfl, (mem_entries_iff wellFormed (inside filled)).mp listed⟩
  · rintro ⟨names, filled, rfl, found⟩
    have longer : place.length < (place ++ names).length := by
      rw [List.length_append]
      exact Nat.lt_add_of_pos_right (List.length_pos_iff.mpr filled)
    have listed := (mem_entries_iff wellFormed (inside filled)).mpr found
    exact ⟨listed, List.prefix_append _ _, longer⟩

/-! ### Following one piece -/

/-- What one piece of a path leads to from a directory. -/
inductive Turn (disk : Disk) (location : Location) : Text → Location → Prop
  | stay {part : Text} (skipped : part = [] ∨ part = ['.']) : Turn disk location part location
  | back : Turn disk location ['.', '.'] location.dropLast
  | enter {name : Text} (kept : ¬ (name = [] ∨ name = ['.'])) (straight : name ≠ ['.', '.'])
    (fits : ¬ nameLimit < CodeUnit.size name) (holds : disk.Holds (location ++ [name])) :
    Turn disk location name (location ++ [name])

theorem isNone_eq_false_iff : (disk.entry? location).isNone = false ↔ disk.Holds location := by
  rw [← Option.not_isSome, Bool.not_eq_false', Option.isSome_iff_exists]
  rfl

theorem follow_cons_eq_ok_iff {part : Text} {parts : List Text} :
    disk.follow location (part :: parts) = .ok place ↔
      disk.entry? location = some .directory ∧
        ∃ next, disk.Turn location part next ∧ disk.follow next parts = .ok place := by
  rw [follow]
  constructor
  · intro leads
    -- The splits are the guards, in the order in which they are asked.
    split at leads
    · cases leads
    · cases leads
    next directory =>
      refine ⟨directory, ?_⟩
      split at leads
      next skipped => exact ⟨location, .stay skipped, leads⟩
      next kept =>
        split at leads
        next parent =>
          subst parent
          exact ⟨location.dropLast, .back, leads⟩
        next straight =>
          split at leads
          · cases leads
          next fits =>
            split at leads
            · cases leads
            next found =>
              have holds := isNone_eq_false_iff.mp (by simpa only [Bool.not_eq_true] using found)
              exact ⟨location ++ [part], .enter kept straight fits holds, leads⟩
  · rintro ⟨directory, next, turn, leads⟩
    rw [directory]
    dsimp only
    cases turn with
    | stay skipped => rwa [if_pos skipped]
    | back => exact leads
    | enter kept straight fits holds =>
      rw [if_neg kept, if_neg straight, if_neg fits, isNone_eq_false_iff.mpr holds]
      exact leads

theorem follow_singleton_eq_ok_iff {part : Text} :
    disk.follow location [part] = .ok place ↔
      disk.entry? location = some .directory ∧ disk.Turn location part place := by
  rw [follow_cons_eq_ok_iff]
  simp [follow]

theorem Turn.holds (wellFormed : disk.WellFormed) {part : Text}
    (turn : disk.Turn location part place)
    (directory : disk.entry? location = some .directory) : disk.Holds place := by
  cases turn with
  | stay => exact ⟨_, directory⟩
  | back => exact ⟨_, directory_dropLast wellFormed ⟨_, directory⟩⟩
  | enter _ _ _ holds => exact holds

/-- What can be followed holds no NUL. -/
theorem plain_of_follow (wellFormed : disk.WellFormed) {part : Text}
    (follows : disk.follow location [part] = .ok place) : '\x00' ∉ part := by
  obtain ⟨-, turn⟩ := follow_singleton_eq_ok_iff.mp follows
  cases turn with
  | stay skipped => rcases skipped with rfl | rfl <;> decide
  | back => decide
  | enter _ _ _ holds => exact (isName_of_holds wellFormed holds part (by simp)).2

/-! ### Following paths -/

/-- What is followed to its end leads to an entry. -/
theorem holds_of_follow (wellFormed : disk.WellFormed) {parts : List Text} (filled : parts ≠ [])
    (leads : disk.follow location parts = .ok place) : disk.Holds place := by
  rw [← List.dropLast_concat_getLast filled] at leads
  obtain ⟨above, -, last⟩ := follow_append_eq_ok_iff.mp leads
  obtain ⟨directory, turn⟩ := follow_singleton_eq_ok_iff.mp last
  exact turn.holds wellFormed directory

/-- The names of an entry lead there, unless one is too long. -/
theorem follow_of_holds (wellFormed : disk.WellFormed)
    (short : ∀ entry ∈ disk.entries, ∀ name ∈ entry.1, CodeUnit.size name ≤ nameLimit)
    (holds : disk.Holds (location ++ names)) :
    disk.follow location names = .ok (location ++ names) := by
  induction names generalizing location with
  | nil => rw [follow, List.append_nil]
  | cons name names ih =>
    have directory := directory_of_holds wellFormed (List.cons_ne_nil name names) holds
    have inside : name ∈ location ++ name :: names := by simp
    obtain ⟨named, -⟩ := isName_of_holds wellFormed holds name inside
    obtain ⟨filled, other, straight, -⟩ := Path.isName_iff.mp named
    have fits : CodeUnit.size name ≤ nameLimit := by
      obtain ⟨entry, found⟩ := holds
      exact short _ ((mem_entries_iff wellFormed (List.ne_nil_of_mem inside)).mpr found) name inside
    rw [List.append_cons] at holds ⊢
    -- The first name leads to the entry itself or to a directory on the way there.
    have next : disk.Holds (location ++ [name]) := by
      by_cases last : names = []
      · rwa [last, List.append_nil] at holds
      · exact ⟨_, directory_of_holds wellFormed last holds⟩
    refine follow_cons_eq_ok_iff.mpr ⟨directory, location ++ [name], ?_, ih holds⟩
    exact .enter (not_or.mpr ⟨filled, other⟩) straight (Nat.not_lt.mpr fits) next

/-- A point leads to where it stands. -/
theorem follow_point (directory : disk.entry? place = some .directory) :
    disk.follow place [['.']] = .ok place :=
  follow_singleton_eq_ok_iff.mpr ⟨directory, .stay (.inr rfl)⟩

/-- A path is followed by its components. -/
theorem follow_piecesTerminated {text : Text}
    (leads : disk.follow location (pieces Path.isSeparator text) = .ok place) :
    disk.follow location (Glob.piecesTerminated text) = .ok place := by
  simp only [Glob.piecesTerminated]
  split
  next ends =>
    obtain ⟨front, cut⟩ := List.getLast?_eq_some_iff.mp ends
    rw [cut] at leads
    rw [cut, List.dropLast_concat]
    obtain ⟨last, before, here⟩ := follow_append_eq_ok_iff.mp leads
    -- The empty piece at the end leads nowhere else.
    rw [follow_eq_ok (by decide) here, before]
    exact congrArg Except.ok (List.append_nil last).symm
  next => exact leads

/-- What can be followed at all starts in a directory. -/
theorem directory_of_follow_start {parts : List Text} (filled : parts ≠ [])
    (leads : disk.follow location parts = .ok place) :
    disk.entry? location = some .directory := by
  obtain ⟨part, parts, rfl⟩ := List.exists_cons_of_ne_nil filled
  exact (follow_cons_eq_ok_iff.mp leads).1

/-- What leads to a file ends in the name of the file. -/
theorem getLast?_of_file (wellFormed : disk.WellFormed) {parts : List Text} {last : Text}
    {content : List UInt8} (leads : disk.follow location (parts ++ [last]) = .ok place)
    (file : disk.entry? place = some (.file content)) :
    Path.component? last = some (.name last) ∧ place.getLast? = some last := by
  obtain ⟨above, -, final⟩ := follow_append_eq_ok_iff.mp leads
  obtain ⟨directory, turn⟩ := follow_singleton_eq_ok_iff.mp final
  -- Only a name leads to a file; any other piece leads to a directory.
  cases turn with
  | stay =>
    rw [directory] at file
    cases file
  | back =>
    rw [directory_dropLast wellFormed ⟨_, directory⟩] at file
    cases file
  | enter kept straight =>
    exact ⟨by rw [Path.component?, if_neg kept, if_neg straight], List.getLast?_concat⟩

end Disk
namespace Workspace

variable {workspace : Workspace} {path name : Text} {place next : Location} {room : Nat}

/-- A path to a file ends in the name of the file. -/
theorem fileName?_of_file (wellFormed : workspace.disk.WellFormed) {content : List UInt8}
    (leads : workspace.target path = .ok place)
    (file : workspace.disk.entry? place = some (.file content)) :
    Path.fileName? path = place.getLast? := by
  obtain ⟨parts, last, cut⟩ : ∃ parts last, pieces Path.isSeparator path = parts ++ [last] :=
    ⟨_, _, (List.dropLast_concat_getLast (Path.pieces_ne_nil path)).symm⟩
  rw [target, cut] at leads
  obtain ⟨named, final⟩ := Disk.getLast?_of_file wellFormed leads file
  have components : (Path.components path).getLast? = some (.name last) := by
    rw [Path.components, cut, List.filterMap_append, List.filterMap_cons_some named,
      ← List.append_assoc]
    exact List.getLast?_concat
  rw [Path.fileName?, components, final]

theorem exists_of_isPresent (present : workspace.isPresent path = true) :
    ∃ place entry, workspace.locate path = .ok place ∧
      workspace.disk.entry? place = some entry := by
  rw [isPresent] at present
  cases there : workspace.entryAt path with
  | error problem =>
    rw [there] at present
    cases present
  | ok found => exact ⟨found.1, found.2, entryAt_eq_ok_iff.mp there⟩

/-! ### Paths that can be followed -/

/-- The path leads to an entry, and is not longer than a number of bytes. -/
structure Leads (workspace : Workspace) (path : Text) (place : Location) (room : Nat) : Prop where
  filled : path ≠ []
  plain : '\x00' ∉ path
  target : workspace.target path = .ok place
  holds : workspace.disk.Holds place
  short : CodeUnit.size path ≤ room

theorem Leads.mono {room' : Nat} (leads : workspace.Leads path place room)
    (more : room ≤ room') : workspace.Leads path place room' :=
  { leads with short := Nat.le_trans leads.short more }

theorem Leads.locate (leads : workspace.Leads path place room) (bound : room ≤ pathLimit) :
    workspace.locate path = .ok place := by
  have plain : path.contains '\x00' = false := by simpa using leads.plain
  have filled : path.isEmpty = false := by simpa using leads.filled
  have short := Nat.not_lt.mpr (Nat.le_trans leads.short bound)
  rw [Workspace.locate, plain, filled, if_neg Bool.false_ne_true, if_neg Bool.false_ne_true,
    if_neg short]
  exact leads.target

theorem leads_of_locate (wellFormed : workspace.disk.WellFormed)
    (located : workspace.locate path = .ok place) :
    workspace.Leads path place (CodeUnit.size path) := by
  obtain ⟨target, filled⟩ := target_of_locate located
  have plain : '\x00' ∉ path := by
    intro member
    rw [Workspace.locate, if_pos (by simpa using member)] at located
    cases located
  exact ⟨filled, plain, target,
    Disk.holds_of_follow wellFormed (Path.pieces_ne_nil path) target, Nat.le_refl _⟩

/-- A path that is joined leads on from the place of the base. -/
theorem Leads.join (wellFormed : workspace.disk.WellFormed)
    (leads : workspace.Leads path place room) {inner : Text}
    (relative : Path.isAbsolute inner = false) (plain : '\x00' ∉ inner)
    (follows : workspace.disk.follow place (pieces Path.isSeparator inner) = .ok next) :
    workspace.Leads (Path.join path inner) next (room + CodeUnit.size inner + 1) := by
  have target : workspace.target (Path.join path inner) = .ok next := by
    rw [target_join_of_relative path relative, leads.target]
    exact follows
  have holds := Disk.holds_of_follow wellFormed (Path.pieces_ne_nil inner) follows
  have short := leads.short
  have plain' := leads.plain
  obtain ⟨front, joined, parts⟩ := Path.exists_front leads.filled
  rw [joined inner relative] at target ⊢
  have one : CodeUnit.width '/' = 1 := rfl
  refine ⟨by simp, ?_, target, holds, ?_⟩
  · rcases parts with rfl | ⟨rfl, -⟩
    · simpa [plain] using plain'
    · simp [plain, plain']
  · have shorter : CodeUnit.size front ≤ CodeUnit.size path := by
      rcases parts with rfl | ⟨rfl, -⟩
      · rw [CodeUnit.size_append]
        exact Nat.le_add_right _ _
      · exact Nat.le_refl _
    rw [CodeUnit.size_append, CodeUnit.size_cons, one]
    omega

/-- A piece of a path, as it is followed. -/
structure IsPiece (piece : Text) : Prop where
  closed : '/' ∉ piece
  plain : '\x00' ∉ piece

theorem Leads.join_piece (wellFormed : workspace.disk.WellFormed)
    (leads : workspace.Leads path place room) (one : IsPiece name)
    (follows : workspace.disk.follow place [name] = .ok next) :
    workspace.Leads (Path.join path name) next (room + CodeUnit.size name + 1) := by
  rw [← Path.pieces_of_not_mem one.closed] at follows
  exact leads.join wellFormed (Path.isAbsolute_of_not_mem one.closed) one.plain follows

theorem component?_eq_none_iff {piece : Text} :
    Path.component? piece = none ↔ Path.isSignificant piece = false := by
  rw [Path.component?, Path.isSignificant]
  split
  next skipped => rcases skipped with rfl | rfl <;> decide
  next kept =>
    rw [not_or] at kept
    have counts : (piece != [] && piece != ['.']) = true := by simpa using kept
    rw [counts]
    split <;> simp

/-- A relative path without a piece that counts leads to where it starts. -/
def IsIdle (path : Text) : Prop := Path.isAbsolute path = false ∧ Path.inner path = []

/-- All pieces of a path that stands for the working directory are skipped. -/
theorem isIdle_of_isHere (here : Glob.isHere path = true) : IsIdle path := by
  rw [Glob.isHere, decide_eq_true_eq, Path.components_eq, Path.leading] at here
  split at here
  · cases here
  next relative =>
    refine ⟨by simpa using relative, ?_⟩
    split at here
    · exact List.append_cancel_left here
    · -- A leading point is no component of its own.
      have listed : Path.Component.current ∈ Path.inner path := by
        rw [List.nil_append] at here
        rw [here]
        exact List.mem_cons_self
      obtain ⟨piece, -, current⟩ := List.mem_filterMap.mp listed
      rw [Path.component?] at current
      split at current
      · cases current
      · split at current <;> cases current

theorem here_of_isHere (leads : workspace.target path = .ok place)
    (here : Glob.isHere path = true) : place = workspace.here := by
  obtain ⟨relative, none⟩ := isIdle_of_isHere here
  have skipped := List.filterMap_eq_nil_iff.mp none
  have straight : ['.', '.'] ∉ pieces Path.isSeparator path := by
    intro member
    cases skipped _ member
  have insignificant : (pieces Path.isSeparator path).filter Path.isSignificant = [] := by
    rw [List.filter_eq_nil_iff]
    intro piece member
    rw [component?_eq_none_iff.mp (skipped piece member)]
    exact Bool.false_ne_true
  rw [target, relative, if_neg Bool.false_ne_true] at leads
  rw [Disk.follow_eq_ok straight leads, insignificant, List.append_nil]

/-- Only a piece that does not count leads from an idle path to an idle one. -/
theorem isIdle_join (closed : '/' ∉ name) (idle : IsIdle (Path.join path name)) :
    IsIdle path ∧ (name = [] ∨ name = ['.']) := by
  obtain ⟨relative, none⟩ := idle
  have relative' := Path.isAbsolute_of_not_mem closed
  rw [Path.inner_join path relative', List.append_eq_nil_iff] at none
  rw [Path.isAbsolute_join_of_relative relative'] at relative
  refine ⟨⟨relative, none.1⟩, ?_⟩
  have skipped : Path.component? name = .none := by
    simpa [Path.inner, Path.pieces_of_not_mem closed] using none.2
  rw [component?_eq_none_iff] at skipped
  simpa [Path.isSignificant, or_iff_not_imp_left] using skipped

theorem isIdle_pathIn (closed : '/' ∉ name) (idle : IsIdle (Glob.pathIn path name)) :
    IsIdle path ∧ (name = [] ∨ name = ['.']) := by
  rw [Glob.pathIn] at idle
  split at idle
  next here =>
    -- The bare name is idle if it is behind any idle path.
    obtain ⟨relative, none⟩ := idle
    have before := isIdle_of_isHere here
    apply isIdle_join closed
    constructor
    · rw [Path.isAbsolute_join_of_relative relative, before.1]
    · rw [Path.inner_join path relative, before.2, none, List.append_nil]
  next => exact isIdle_join closed idle

/-- A path that goes through names is not idle. -/
theorem not_isIdle_pathThrough {names : List Text} (filled : names ≠ [])
    (named : ∀ name ∈ names, Path.IsName name) : ¬ IsIdle (Glob.pathThrough path names) := by
  obtain ⟨name, rest, rfl⟩ := List.exists_cons_of_ne_nil filled
  obtain ⟨first, others⟩ := List.forall_mem_cons.mp named
  rintro ⟨relative, none⟩
  rw [Glob.pathThrough, Path.inner_foldl_join _ others, List.append_eq_nil_iff,
    List.map_eq_nil_iff] at none
  obtain ⟨none, rfl⟩ := none
  -- The path through the first name alone is idle only if that is no name.
  obtain ⟨some, other, -, closed⟩ := Path.isName_iff.mp first
  rcases (isIdle_pathIn closed ⟨relative, none⟩).2 with rfl | rfl
  · exact some rfl
  · exact other rfl

/-- An entry that is found in a directory is named from there. -/
theorem target_pathIn (leads : workspace.target path = .ok place) (closed : '/' ∉ name) :
    workspace.target (Glob.pathIn path name) = workspace.disk.follow place [name] := by
  rw [Glob.pathIn]
  split
  next here =>
    rw [target, Path.isAbsolute_of_not_mem closed, if_neg Bool.false_ne_true,
      Path.pieces_of_not_mem closed, here_of_isHere leads here]
  next =>
    rw [target_join_of_relative path (Path.isAbsolute_of_not_mem closed), leads,
      Path.pieces_of_not_mem closed]
    rfl

theorem Leads.pathIn (wellFormed : workspace.disk.WellFormed)
    (leads : workspace.Leads path place room) (one : IsPiece name)
    (firm : Glob.isHere path = true → name ≠ [])
    (follows : workspace.disk.follow place [name] = .ok next) :
    workspace.Leads (Glob.pathIn path name) next (room + CodeUnit.size name + 1) := by
  have target := (target_pathIn leads.target one.closed).trans follows
  have holds := Disk.holds_of_follow wellFormed (List.cons_ne_nil name []) follows
  rw [Glob.pathIn] at target ⊢
  split at target
  next here =>
    rw [if_pos here]
    exact ⟨firm here, one.plain, target, holds, by omega⟩
  next elsewhere =>
    rw [if_neg elsewhere]
    exact leads.join_piece wellFormed one follows

/-- The bytes of the names, each behind a separator. -/
def lengthOf (names : List Text) : Nat := (names.map fun name => CodeUnit.size name + 1).sum

theorem lengthOf_append (names others : List Text) :
    lengthOf (names ++ others) = lengthOf names + lengthOf others := by
  rw [lengthOf, List.map_append, List.sum_append]
  rfl

variable {names : List Text}

theorem lengthOf_le_size (names : List Text) : lengthOf names ≤ CodeUnit.size (pathOf names) := by
  rw [pathOf]
  split
  next none =>
    rw [none]
    exact Nat.zero_le _
  next some =>
    have sizes : ∀ names : List Text,
        CodeUnit.size (names.flatMap fun name => '/' :: name) = lengthOf names := by
      intro names
      induction names with
      | nil => rfl
      | cons name names ih =>
        have one : CodeUnit.width '/' = 1 := rfl
        rw [List.flatMap_cons, CodeUnit.size_append, ih, CodeUnit.size_cons, one, Nat.add_comm 1]
        rfl
    exact Nat.le_of_eq (sizes names).symm

theorem isPiece_of_holds (wellFormed : workspace.disk.WellFormed) {location : Location}
    (holds : workspace.disk.Holds location) : ∀ name ∈ location, IsPiece name := by
  intro name member
  obtain ⟨named, plain⟩ := Disk.isName_of_holds wellFormed holds name member
  exact ⟨named.2, plain⟩

section
variable (wellFormed : workspace.disk.WellFormed)
  (short : ∀ entry ∈ workspace.disk.entries, ∀ name ∈ entry.1, CodeUnit.size name ≤ nameLimit)
include wellFormed short

/-- The first of the names of an entry leads to the next directory, or to the entry. -/
theorem follow_name (holds : workspace.disk.Holds (place ++ name :: names)) :
    workspace.disk.follow place [name] = .ok (place ++ [name]) := by
  have inside : workspace.disk.Holds (place ++ [name]) := by
    rw [List.append_cons] at holds
    by_cases last : names = []
    · rwa [last, List.append_nil] at holds
    · exact ⟨_, Disk.directory_of_holds wellFormed last holds⟩
  exact Disk.follow_of_holds wellFormed short inside

theorem Leads.foldl_join (leads : workspace.Leads path place room)
    (holds : workspace.disk.Holds (place ++ names)) :
    workspace.Leads (names.foldl Path.join path) (place ++ names) (room + lengthOf names) := by
  induction names generalizing path place room with
  | nil =>
    rw [List.append_nil]
    exact leads
  | cons name names ih =>
    have follows := follow_name wellFormed short holds
    have one := isPiece_of_holds wellFormed holds name (by simp)
    rw [List.append_cons] at holds ⊢
    have later := ih (leads.join_piece wellFormed one follows) holds
    rw [List.foldl_cons]
    refine later.mono ?_
    rw [lengthOf, lengthOf, List.map_cons, List.sum_cons]
    omega

/-- The names of an entry below lead there. -/
theorem Leads.pathThrough (leads : workspace.Leads path place room)
    (holds : workspace.disk.Holds (place ++ names)) :
    workspace.Leads (Glob.pathThrough path names) (place ++ names) (room + lengthOf names) := by
  cases names with
  | nil =>
    rw [List.append_nil]
    exact leads
  | cons name names =>
    have follows := follow_name wellFormed short holds
    have one := isPiece_of_holds wellFormed holds name (by simp)
    obtain ⟨named, -⟩ := Disk.isName_of_holds wellFormed holds name (by simp)
    have filled := (Path.isName_iff.mp named).1
    rw [List.append_cons] at holds ⊢
    have later :=
      (leads.pathIn wellFormed one (fun _ => filled) follows).foldl_join wellFormed short holds
    rw [Glob.pathThrough]
    refine later.mono ?_
    rw [lengthOf, lengthOf, List.map_cons, List.sum_cons]
    omega

end
end Workspace
end KeyHarvest
