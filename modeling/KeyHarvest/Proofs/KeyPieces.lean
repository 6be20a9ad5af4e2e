import KeyHarvest.Keys.Written
import KeyHarvest.Proofs.Parts

/-!
# The keys of a value, piece by piece

A value that is cut at a semicolon has the keys of its two parts, and in a piece without semicolons
there is a single key or none (`normalize_pieces`). What the key in a piece is, `KeyIn` says without
the reader (`keyIn_iff`).
-/
namespace KeyHarvest

/-! ### Trimming -/

theorem trim_of_trims {text inner : Text} (trims : Trims text inner) : trim text = inner := by
  obtain ⟨left, right, rfl, front, back, first, last⟩ := trims
  rw [trim]
  cases inner with
  | nil =>
    -- All of it is blank.
    have all : (left ++ right ++ []).dropWhile isBlank = [] :=
      dropWhile_run (List.forall_mem_append.mpr ⟨front, back⟩) (by simp)
    rw [List.append_nil] at all
    rw [List.nil_append, all]
    rfl
  | cons c rest =>
    -- The run of blanks at either end stops at the part that neither starts nor ends with one.
    have begins : (left ++ (c :: rest ++ right)).dropWhile isBlank = c :: rest ++ right :=
      dropWhile_run front first
    have ends : ((c :: rest) ++ right).reverse.dropWhile isBlank = (c :: rest).reverse := by
      rw [List.reverse_append]
      refine dropWhile_run (fun d member => back d (List.mem_reverse.mp member)) ?_
      rwa [List.head?_reverse]
    rw [begins, ends, List.reverse_reverse]

theorem trims_trim (text : Text) : Trims text (trim text) := by
  have back := (text.dropWhile isBlank).reverse.takeWhile_append_dropWhile (p := isBlank)
  refine ⟨text.takeWhile isBlank, ((text.dropWhile isBlank).reverse.takeWhile isBlank).reverse,
    ?_, all_takeWhile, ?_, isBlank_head_trim text, isBlank_getLast_trim text⟩
  · rw [trim, ← List.reverse_append, back, List.reverse_reverse]
    exact text.takeWhile_append_dropWhile.symm
  · exact fun c member => all_takeWhile c (List.mem_reverse.mp member)

/-! ### Qualifiers -/

theorem dropQualifier_of_not_isQualified {text : Text} (plain : ¬ IsQualified text) :
    dropQualifier text = text := by
  cases text with
  | nil => rfl
  | cons c rest =>
    by_cases opens : c = '['
    · subst opens
      -- The bracket opens, so it is not closed.
      have unclosed : splitAt? (· == ']') rest = none := by
        refine splitAt?_eq_none_iff.mpr fun c member => ?_
        rw [beq_eq_false_iff_ne]
        rintro rfl
        exact plain ⟨rfl, List.mem_cons_of_mem '[' member⟩
      rw [dropQualifier, unclosed]
    · simp [dropQualifier, opens]

/-- A qualifier ends at the first bracket that closes. -/
theorem dropQualifier_qualified {qualifier rest : Text} (first : ']' ∉ qualifier) :
    dropQualifier ('[' :: (qualifier ++ ']' :: rest)) = trim rest := by
  have cut : splitAt? (· == ']') (qualifier ++ ']' :: rest) = some (qualifier, rest) := by
    refine splitAt?_eq_some_iff.mpr ⟨']', rfl, rfl, fun c member => ?_⟩
    rw [beq_eq_false_iff_ne]
    rintro rfl
    exact first member
  rw [dropQualifier, cut]

theorem exists_of_isQualified {text : Text} (closed : IsQualified text) :
    ∃ qualifier rest, text = '[' :: (qualifier ++ ']' :: rest) ∧ ']' ∉ qualifier := by
  obtain ⟨opens, closes⟩ := closed
  obtain ⟨behind, rfl⟩ := List.head?_eq_some_iff.mp opens
  have inside : ']' ∈ behind := by simpa using closes
  obtain ⟨qualifier, rest, rfl, first⟩ := List.eq_append_cons_of_mem inside
  exact ⟨qualifier, rest, rfl, first⟩

/-! ### The key in a piece -/

theorem dropQualifier_of_keyIn {piece key : Text} (stands : KeyIn piece key) :
    dropQualifier (trim piece) = key := by
  cases stands with
  | plain trims plain => rw [trim_of_trims trims, dropQualifier_of_not_isQualified plain]
  | qualified trims first behind =>
    rw [trim_of_trims trims, dropQualifier_qualified first, trim_of_trims behind]

theorem keyIn_dropQualifier (piece : Text) : KeyIn piece (dropQualifier (trim piece)) := by
  have trims := trims_trim piece
  by_cases closed : IsQualified (trim piece)
  · obtain ⟨qualifier, rest, cut, first⟩ := exists_of_isQualified closed
    rw [cut] at trims ⊢
    rw [dropQualifier_qualified first]
    exact .qualified trims first (trims_trim rest)
  · rw [dropQualifier_of_not_isQualified closed]
    exact .plain trims closed

theorem keyIn_iff {piece key : Text} : KeyIn piece key ↔ dropQualifier (trim piece) = key := by
  constructor
  · exact dropQualifier_of_keyIn
  · rintro rfl
    exact keyIn_dropQualifier piece

theorem key?_of_keyIn {piece key : Text} (stands : KeyIn piece key) :
    key? piece = if key = [] then none else some key := by
  rw [key?, dropQualifier_of_keyIn stands]
  simp only [List.isEmpty_iff]

/-! ### Values -/

theorem normalize_keys (found : Lookup Char) (followingText : Text) :
    (normalize found followingText).map (·.key) = keys found followingText := by
  rw [normalize, List.map_map]
  exact List.map_id _

theorem keys_append (left right followingText : Text) :
    keys (.value (left ++ ';' :: right)) followingText =
      keys (.value left) followingText ++ keys (.value right) followingText := by
  simp only [keys]
  rw [pieces_append_cons rfl, List.filterMap_append]

theorem keys_piece {piece : Text} (whole : ';' ∉ piece) (followingText : Text) :
    keys (.value piece) followingText = (key? piece).toList := by
  have uncut : pieces isKeySeparator piece = [piece] := by
    refine pieces_of_forall_not fun c member => ?_
    rw [isKeySeparator, beq_eq_false_iff_ne]
    rintro rfl
    exact whole member
  rw [keys, uncut]
  cases found : key? piece with
  | none => simp [found]
  | some key => simp [found]

/-- The record of a key, and none of an empty one. -/
def recordsOf (key : Text) : List Record := if key = [] then [] else [.ofKey key]

theorem normalize_of_key? {found : Lookup Char} {piece key followingText : Text}
    (stands : KeyIn piece key) (single : keys found followingText = (key? piece).toList) :
    normalize found followingText = recordsOf key := by
  rw [normalize, single, key?_of_keyIn stands, recordsOf]
  split
  · rfl
  · rfl

/-- The keys of a value are those of the text before a semicolon and those of the text behind it.
There is exactly one key in a piece: it is the record of a value without semicolons and, with or
without semicolons, of the text that stands for a missing value, unless it is empty. No record has a
default value yet. -/
theorem normalize_pieces (followingText : Text) :
    (∀ left right, normalize (.value (left ++ ';' :: right)) followingText =
      normalize (.value left) followingText ++ normalize (.value right) followingText) ∧
    (∀ piece, ∃ key, (∀ other, KeyIn piece other ↔ other = key) ∧
      (';' ∉ piece → normalize (.value piece) followingText = recordsOf key) ∧
      normalize .noValue piece = recordsOf key) ∧
    ∀ found, ∀ record ∈ normalize found followingText, record.defaultValue = none := by
  refine ⟨?_, ?_, ?_⟩
  · intro left right
    rw [normalize, keys_append, List.map_append]
    rfl
  · intro piece
    have stands := keyIn_dropQualifier piece
    refine ⟨_, fun other => keyIn_iff.trans eq_comm, ?_, ?_⟩
    · exact fun whole => normalize_of_key? stands (keys_piece whole followingText)
    · exact normalize_of_key? stands rfl
  · intro found record member
    obtain ⟨key, -, rfl⟩ := List.mem_map.mp member
    rfl

/-- A qualifier with a bracket and a line feed in it, and another one in the key behind it. -/
def bracketedPiece : Text := "\u00a0[[\n] [x] k ".toList

theorem normalize_bracketedPiece :
    KeyIn bracketedPiece "[x] k".toList ∧ ';' ∉ bracketedPiece ∧
      normalize (.value bracketedPiece) ['f'] = [⟨"[x] k".toList, none⟩] ∧
      normalize .noValue bracketedPiece = [⟨"[x] k".toList, none⟩] ∧
      normalize (.value (bracketedPiece ++ ';' :: bracketedPiece)) ['f'] =
        [⟨"[x] k".toList, none⟩, ⟨"[x] k".toList, none⟩] := by
  have stands : KeyIn bracketedPiece "[x] k".toList := keyIn_iff.mpr (by decide)
  have whole : ';' ∉ bracketedPiece := by decide
  obtain ⟨cut, each, -⟩ := normalize_pieces ['f']
  obtain ⟨key, unique, value, text⟩ := each bracketedPiece
  obtain rfl := (unique _).mp stands
  refine ⟨stands, whole, value whole, text, ?_⟩
  rw [cut, value whole]
  rfl

end KeyHarvest
