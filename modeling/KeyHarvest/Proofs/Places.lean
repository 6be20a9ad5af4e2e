import KeyHarvest.Files.Place
import KeyHarvest.Proofs.Cuts
import KeyHarvest.Text.Attempt

/-!
# Paths and the places they lead to

A path that is joined from a base and names leads from the place of the base on by these names
(`Workspace.target_foldl_join`), and starts as the base does (`Path.leading_foldl_join`). Without a
component that leads back up, a place is made of the names that the path holds, so that places at or
below each other are seen from the components (`Workspace.startsWith_of_liesIn`).
-/
namespace KeyHarvest

namespace Path

/-! ### Pieces of a joined path -/

theorem isName_iff {name : Text} :
    IsName name ↔ name ≠ [] ∧ name ≠ ['.'] ∧ name ≠ ['.', '.'] ∧ '/' ∉ name := by
  rw [IsName, component?]
  split
  next skipped => rcases skipped with rfl | rfl <;> simp
  next kept =>
    rw [not_or] at kept
    split
    next parent => simp [parent]
    next other => simp [kept, other]

theorem isAbsolute_of_not_mem {name : Text} (plain : '/' ∉ name) : isAbsolute name = false := by
  rw [Path.isAbsolute, beq_eq_false_iff_ne]
  exact fun first => plain (List.mem_of_head? first)

theorem pieces_of_not_mem {name : Text} (plain : '/' ∉ name) :
    pieces isSeparator name = [name] := by
  apply pieces_of_forall_not
  intro c member
  rw [isSeparator, beq_eq_false_iff_ne]
  rintro rfl
  exact plain member

theorem IsName.isAbsolute {name : Text} (named : IsName name) : isAbsolute name = false :=
  isAbsolute_of_not_mem named.2

theorem IsName.pieces {name : Text} (named : IsName name) : pieces isSeparator name = [name] :=
  pieces_of_not_mem named.2

/-- Whether the next name is written behind a path without a separator. -/
def IsOpen (path : Text) : Prop := path = [] ∨ path.getLast? = some '/'

theorem join_of_isOpen {base path : Text} (relative : isAbsolute path = false)
    (ends : IsOpen base) : join base path = base ++ path := by
  rw [join, relative, if_neg Bool.false_ne_true, if_pos]
  simpa [IsOpen] using ends

theorem join_of_not_isOpen {base path : Text} (relative : isAbsolute path = false)
    (ends : ¬ IsOpen base) : join base path = base ++ '/' :: path := by
  rw [join, relative, if_neg Bool.false_ne_true, if_neg]
  simpa [IsOpen] using ends

theorem join_eq {base path : Text} (relative : isAbsolute path = false) :
    join base path = join base [] ++ path := by
  by_cases ends : IsOpen base
  · rw [join_of_isOpen relative ends, join_of_isOpen rfl ends, List.append_nil]
  · rw [join_of_not_isOpen relative ends, join_of_not_isOpen rfl ends, List.append_assoc]
    rfl

theorem pieces_append (left right : Text) :
    pieces isSeparator (left ++ '/' :: right) =
      pieces isSeparator left ++ pieces isSeparator right :=
  pieces_append_cons rfl left right

theorem pieces_ne_nil (path : Text) : pieces isSeparator path ≠ [] := by
  rw [pieces_eq_splitOnP]
  exact List.splitOnP_ne_nil _ _

/-- The pieces of a joined path are those of its parts, without the empty one that a separator at
the end of the base leaves. -/
theorem pieces_join (base : Text) {path : Text} (relative : isAbsolute path = false) :
    ∃ before, pieces isSeparator (join base path) = before ++ pieces isSeparator path ∧
      (pieces isSeparator base = before ∨ pieces isSeparator base = before ++ [[]]) ∧
      (base ≠ [] → before ≠ []) := by
  by_cases ends : IsOpen base
  · rw [join_of_isOpen relative ends]
    rcases ends with rfl | last
    · -- The empty base is one empty piece.
      exact ⟨[], rfl, .inr rfl, fun some => absurd rfl some⟩
    · obtain ⟨before, rfl⟩ := List.getLast?_eq_some_iff.mp last
      refine ⟨pieces isSeparator before, ?_, .inr ?_, fun _ => pieces_ne_nil before⟩
      · rw [List.append_assoc]
        exact pieces_append before path
      · exact pieces_append before []
  · rw [join_of_not_isOpen relative ends]
    exact ⟨pieces isSeparator base, pieces_append base path, .inl rfl, fun _ => pieces_ne_nil base⟩

/-! ### What a path starts with -/

theorem isAbsolute_join_of_relative {base path : Text} (relative : isAbsolute path = false) :
    isAbsolute (join base path) = isAbsolute base := by
  by_cases ends : IsOpen base
  · rw [join_of_isOpen relative ends]
    cases base with
    | nil => exact relative
    | cons c base => rfl
  · rw [join_of_not_isOpen relative ends]
    cases base with
    | nil => exact absurd (.inl rfl) ends
    | cons c base => rfl

/-- An absolute path stays absolute, whatever is joined to it. -/
theorem isAbsolute_join {base : Text} (absolute : isAbsolute base = true) (path : Text) :
    isAbsolute (join base path) = true := by
  by_cases relative : isAbsolute path = true
  · rw [join, if_pos relative]
    exact relative
  · rw [isAbsolute_join_of_relative (by simpa using relative)]
    exact absolute

theorem isAbsolute_foldl_join {base : Text} (absolute : isAbsolute base = true)
    (names : List Text) : isAbsolute (names.foldl join base) = true := by
  induction names generalizing base with
  | nil => exact absolute
  | cons name names ih => exact ih (isAbsolute_join absolute name)

theorem leading_eq_root_iff {path : Text} : leading path = [.root] ↔ isAbsolute path = true := by
  rw [leading]
  split
  next absolute => exact iff_of_true rfl absolute
  next relative =>
    refine iff_of_false ?_ relative
    split <;> simp

theorem isAbsolute_eq_of_leading_eq {path path' : Text} (same : leading path = leading path') :
    isAbsolute path = isAbsolute path' := by
  rw [Bool.eq_iff_iff, ← leading_eq_root_iff, ← leading_eq_root_iff, same]

theorem join_ne_nil {base path : Text} (some : base ≠ []) (relative : isAbsolute path = false) :
    join base path ≠ [] := by
  by_cases ends : IsOpen base
  · simp [join_of_isOpen relative ends, some]
  · simp [join_of_not_isOpen relative ends]

theorem leading_join {base path : Text} (some : base ≠ []) (relative : isAbsolute path = false) :
    leading (join base path) = leading base := by
  obtain ⟨before, joined, parts, starts⟩ := pieces_join base relative
  obtain ⟨first, others, rfl⟩ := List.exists_cons_of_ne_nil (starts some)
  rw [leading, leading, isAbsolute_join_of_relative relative, joined]
  rcases parts with parts | parts
  · rw [parts]
    rfl
  · rw [parts]
    rfl

theorem leading_foldl_join {base : Text} (some : base ≠ []) {names : List Text}
    (named : ∀ name ∈ names, IsName name) : leading (names.foldl join base) = leading base := by
  induction names generalizing base with
  | nil => rfl
  | cons name names ih =>
    obtain ⟨first, others⟩ := List.forall_mem_cons.mp named
    rw [List.foldl_cons, ih (join_ne_nil some first.isAbsolute) others]
    exact leading_join some first.isAbsolute

/-! ### Components -/

/-- The components of a path behind what it starts with. -/
def inner (path : Text) : List Component := (pieces isSeparator path).filterMap component?

theorem inner_join (base : Text) {path : Text} (relative : isAbsolute path = false) :
    inner (join base path) = inner base ++ inner path := by
  obtain ⟨before, joined, parts, -⟩ := pieces_join base relative
  rw [inner, joined, List.filterMap_append, inner, inner]
  rcases parts with parts | parts
  · rw [parts]
  · -- The piece behind a separator at the end does not count.
    rw [parts, List.filterMap_append]
    simp [component?]

theorem inner_foldl_join (base : Text) {names : List Text} (named : ∀ name ∈ names, IsName name) :
    inner (names.foldl join base) = inner base ++ names.map .name := by
  induction names generalizing base with
  | nil => exact (List.append_nil _).symm
  | cons name names ih =>
    obtain ⟨first, others⟩ := List.forall_mem_cons.mp named
    have only : inner name = [.name name] := by
      rw [inner, first.pieces, List.filterMap_cons, first.1]
      rfl
    rw [List.foldl_cons, ih _ others, inner_join base first.isAbsolute, only, List.append_assoc]
    rfl

theorem components_eq (path : Text) : components path = leading path ++ inner path := rfl

/-! ### Names -/

/-- The pieces of a path that count. -/
def isSignificant (piece : Text) : Bool := piece != [] && piece != ['.']

/-- Without components that lead back up, the components are what a path starts with, and its
names. -/
theorem components_of_noParents {path : Text} (straight : NoParents path) :
    components path =
      leading path ++ ((pieces isSeparator path).filter isSignificant).map .name := by
  rw [components, leading]
  congr 1
  rw [NoParents] at straight
  generalize pieces isSeparator path = parts at straight ⊢
  induction parts with
  | nil => rfl
  | cons piece rest ih =>
    rw [List.mem_cons, not_or] at straight
    rw [List.filterMap_cons, List.filter_cons, ih straight.2, component?, isSignificant]
    by_cases skipped : piece = [] ∨ piece = ['.']
    · rcases skipped with rfl | rfl <;> rfl
    · rw [if_neg skipped, if_neg (Ne.symm straight.1), if_pos]
      · rfl
      · simpa [not_or] using skipped

end Path

/-! ### Following names -/

namespace Disk

theorem follow_append (disk : Disk) (location : Location) (left right : List Text) :
    disk.follow location (left ++ right) =
      (disk.follow location left).bind fun place => disk.follow place right := by
  induction left generalizing location with
  | nil => rfl
  | cons name rest ih =>
    rw [List.cons_append, follow, follow]
    split
    · rfl
    · rfl
    · simp only [ih]
      split
      · rfl
      · split
        · rfl
        · split
          · rfl
          · split <;> rfl

theorem follow_append_eq_ok_iff {disk : Disk} {location place : Location} {left right : List Text} :
    disk.follow location (left ++ right) = .ok place ↔
      ∃ between, disk.follow location left = .ok between ∧
        disk.follow between right = .ok place := by
  rw [follow_append]
  exact Except.bind_eq_ok_iff

/-- An empty name asks for a directory, and so does any name after it. -/
theorem follow_empty (disk : Disk) (location : Location) (name : Text) (rest : List Text) :
    disk.follow location (name :: rest) =
      (disk.follow location [[]]).bind fun place => disk.follow place (name :: rest) := by
  cases stands : disk.entry? location with
  | none => simp [follow, stands, Except.bind]
  | some entry =>
    cases entry with
    | directory => simp [follow, stands, Except.bind]
    | file content => simp [follow, stands, Except.bind]

/-- Without a component that leads back up, the names lead down one by one. -/
theorem follow_eq_ok {disk : Disk} {location place : Location} {names : List Text}
    (straight : ['.', '.'] ∉ names) (leads : disk.follow location names = .ok place) :
    place = location ++ names.filter Path.isSignificant := by
  induction names generalizing location with
  | nil =>
    cases leads
    simp
  | cons name rest ih =>
    rw [List.mem_cons, not_or] at straight
    rw [follow] at leads
    split at leads
    · cases leads
    · cases leads
    · split at leads
      next skipped =>
        rw [ih straight.2 leads, List.filter_cons_of_neg]
        rcases skipped with rfl | rfl <;> simp [Path.isSignificant]
      next kept =>
        rw [if_neg (Ne.symm straight.1)] at leads
        have counts : Path.isSignificant name = true := by
          simpa [Path.isSignificant, not_or] using kept
        split at leads
        · cases leads
        · split at leads
          · cases leads
          · rw [ih straight.2 leads, List.filter_cons_of_pos counts, List.append_assoc]
            rfl

theorem follow_names {disk : Disk} {location place : Location} {names : List Text}
    (named : ∀ name ∈ names, Path.IsName name) (leads : disk.follow location names = .ok place) :
    place = location ++ names := by
  have counts : ∀ name ∈ names, Path.isSignificant name = true := by
    intro name member
    obtain ⟨some, other, -, -⟩ := Path.isName_iff.mp (named name member)
    simp [Path.isSignificant, some, other]
  have straight : ['.', '.'] ∉ names := by
    intro member
    exact (Path.isName_iff.mp (named _ member)).2.2.1 rfl
  rw [follow_eq_ok straight leads, List.filter_eq_self.mpr counts]

end Disk

namespace Workspace

variable {workspace : Workspace}

theorem target_of_locate {path : Text} {place : Location}
    (located : workspace.locate path = .ok place) :
    workspace.target path = .ok place ∧ path ≠ [] := by
  rw [locate] at located
  split at located
  · cases located
  · split at located
    · cases located
    next some =>
      split at located
      · cases located
      · refine ⟨located, ?_⟩
        rintro rfl
        exact some rfl

/-- A path that is joined leads on from the place of the base: a separator at the end of the base
asks for a directory, and so does any piece. -/
theorem target_join_of_relative (base : Text) {path : Text}
    (relative : Path.isAbsolute path = false) :
    workspace.target (Path.join base path) =
      (workspace.target base).bind fun place =>
        workspace.disk.follow place (pieces Path.isSeparator path) := by
  obtain ⟨before, joined, parts, -⟩ := Path.pieces_join base relative
  rw [target, target, Path.isAbsolute_join_of_relative relative, joined, Disk.follow_append]
  rcases parts with parts | parts
  · rw [parts]
  · -- The base ends in a separator, which is there no more once a path is joined.
    rw [parts, Disk.follow_append]
    cases workspace.disk.follow _ before with
    | error problem => rfl
    | ok place =>
      obtain ⟨piece, rest, cut⟩ := List.exists_cons_of_ne_nil (Path.pieces_ne_nil path)
      rw [cut]
      exact Disk.follow_empty workspace.disk place piece rest

theorem target_join {base name : Text} (named : Path.IsName name) :
    workspace.target (Path.join base name) =
      (workspace.target base).bind fun place => workspace.disk.follow place [name] := by
  rw [target_join_of_relative base named.isAbsolute, named.pieces]

/-- A path of a base and names leads from the place of the base on by the names. -/
theorem target_foldl_join {base : Text} {names : List Text}
    (named : ∀ name ∈ names, Path.IsName name) :
    workspace.target (names.foldl Path.join base) =
      (workspace.target base).bind fun place => workspace.disk.follow place names := by
  induction names generalizing base with
  | nil =>
    rw [List.foldl_nil]
    cases workspace.target base <;> rfl
  | cons name names ih =>
    obtain ⟨first, others⟩ := List.forall_mem_cons.mp named
    rw [List.foldl_cons, ih others, target_join first]
    cases workspace.target base with
    | error problem => rfl
    | ok place => exact (Disk.follow_append _ place [name] names).symm

theorem eq_of_target_foldl_join {base : Text} {names : List Text} {place inner : Location}
    (named : ∀ name ∈ names, Path.IsName name) (outer : workspace.target base = .ok place)
    (leads : workspace.target (names.foldl Path.join base) = .ok inner) :
    inner = place ++ names := by
  rw [target_foldl_join named, outer] at leads
  exact Disk.follow_names named leads

/-- Where two paths start alike, the one whose place lies in the place of the other goes on from the
other's components. -/
theorem startsWith_of_liesIn {path outer : Text} (straight : Path.NoParents path)
    (straight' : Path.NoParents outer) (same : Path.leading path = Path.leading outer)
    (lies : workspace.LiesIn path outer) : Path.startsWith path outer = true := by
  obtain ⟨place, names, leads, leads'⟩ := lies
  rw [target] at leads leads'
  -- Both places are read off the paths, from the same place on.
  have below := Disk.follow_eq_ok straight leads'
  rw [Disk.follow_eq_ok straight' leads, Path.isAbsolute_eq_of_leading_eq same,
    List.append_assoc, List.append_cancel_left_eq] at below
  rw [Path.startsWith, List.isPrefixOf_iff_prefix, Path.components_of_noParents straight,
    Path.components_of_noParents straight', same, ← below, List.map_append, ← List.append_assoc]
  exact List.prefix_append _ _

end Workspace
end KeyHarvest
