import KeyHarvest.Proofs.KeyPieces
import KeyHarvest.Proofs.KeyPlaces
import Mathlib.Data.List.Basic

/-!
# Written keys are read back

The keys of a value, joined again, are read back as they are unless one of them starts with a
bracket that closes: only then is something taken off a second time (`key?_eq_some_self_iff`). Keys
that are written with qualifiers, with blanks around them and with blank pieces in between are read
back as they are without all that (`WrittenPiece.key?_render`).
-/
namespace KeyHarvest

/-! ### Joined pieces -/

theorem keys_joined {texts : List Text} (whole : ∀ text ∈ texts, ';' ∉ text)
    (followingText : Text) :
    keys (.value (joined texts)) followingText = texts.filterMap key? := by
  rw [keys, joined, pieces_eq_splitOnP]
  by_cases empty : texts = []
  · -- The value is empty, and so is its only piece.
    subst empty
    rfl
  · exact congrArg (List.filterMap key?) (List.splitOn_intercalate ';' whole empty)

theorem filterMap_eq_self_iff {α : Type} {cut : α → Option α} {items : List α} :
    items.filterMap cut = items ↔ ∀ item ∈ items, cut item = some item := by
  induction items with
  | nil => simp
  | cons item items ih =>
    rw [List.forall_mem_cons]
    cases found : cut item with
    | none =>
      -- An item that is dropped is missed at the end.
      rw [List.filterMap_cons_none found]
      constructor
      · intro same
        have bound := List.length_filterMap_le cut items
        rw [same, List.length_cons] at bound
        omega
      · rintro ⟨kept, -⟩
        cases kept
    | some other => rw [List.filterMap_cons_some found, List.cons.injEq, ih, Option.some.injEq]

/-! ### Keys of keys -/

theorem trims_of_isTrimmed {text : Text} (trimmed : IsTrimmed text) : Trims text text :=
  ⟨[], [], by simp, by simp [IsBlankText], by simp [IsBlankText], trimmed⟩

/-- A key is its own key unless a qualifier can be taken off it, which leaves less of it. -/
theorem key?_eq_some_self_iff {key : Text} (isKey : IsKey key) :
    key? key = some key ↔ ¬ IsQualified key := by
  have trims := trims_of_isTrimmed isKey.2
  constructor
  · intro same closed
    -- The key of the key would be what is behind its qualifier, which is shorter.
    obtain ⟨qualifier, rest, cut, first⟩ := exists_of_isQualified closed
    rw [cut] at trims
    have stands := key?_of_keyIn (.qualified trims first (trims_trim rest))
    rw [← cut, same] at stands
    have shorter : (trim rest).length < key.length := by
      have bound := (trim_isInfix rest).length_le
      rw [cut]
      simp only [List.length_cons, List.length_append]
      omega
    split at stands
    · cases stands
    · rw [← Option.some.inj stands] at shorter
      omega
  · intro plain
    rw [key?_of_keyIn (.plain trims plain), if_neg isKey.1]

/-! ### Written pieces -/

theorem not_semicolon_of_isBlankText {text : Text} (blank : IsBlankText text) : ';' ∉ text := by
  intro member
  cases blank ';' member

namespace WrittenPiece

theorem keyIn_render {before between key after : Text} {qualifier : Option Text}
    (wellFormed : (keyed before qualifier between key after).WellFormed) :
    KeyIn (keyed before qualifier between key after).render key := by
  obtain ⟨front, inner, middle, ⟨nonempty, trimmed, -, plain⟩, back⟩ := wellFormed
  cases qualifier with
  | none =>
    -- Without a qualifier the blanks before and behind it are one run.
    refine .plain ⟨before ++ between, after, ?_, ?_, back, trimmed⟩ plain
    · simp [render]
    · exact List.forall_mem_append.mpr ⟨front, middle⟩
  | some qualifier =>
    have first := (inner qualifier rfl).1
    -- What is left of the piece goes from the bracket to the end of the key.
    have ends : IsTrimmed ('[' :: (qualifier ++ ']' :: (between ++ key))) := by
      constructor
      · rintro c ⟨⟩
        rfl
      · have whole : '[' :: (qualifier ++ ']' :: (between ++ key)) =
            ('[' :: (qualifier ++ ']' :: between)) ++ key := by simp
        rw [whole, List.getLast?_append_of_ne_nil _ nonempty]
        exact trimmed.2
    have trims : Trims (keyed before (some qualifier) between key after).render
        ('[' :: (qualifier ++ ']' :: (between ++ key))) :=
      ⟨before, after, by simp [render], front, back, ends⟩
    have behind : Trims (between ++ key) key :=
      ⟨between, [], by simp, middle, by simp [IsBlankText], trimmed⟩
    exact .qualified trims first behind

theorem key?_render {piece : WrittenPiece} (wellFormed : piece.WellFormed) :
    KeyHarvest.key? piece.render = piece.key? := by
  cases piece with
  | blank space =>
    have trims : Trims space [] :=
      ⟨space, [], by simp, wellFormed, by simp [IsBlankText], by simp [IsTrimmed]⟩
    exact key?_of_keyIn (.plain trims (by simp [IsQualified]))
  | keyed before qualifier between key after =>
    rw [key?_of_keyIn (keyIn_render wellFormed), if_neg wellFormed.2.2.2.1.1]
    rfl

theorem not_semicolon_mem_render {piece : WrittenPiece} (wellFormed : piece.WellFormed) :
    ';' ∉ piece.render := by
  cases piece with
  | blank space => exact not_semicolon_of_isBlankText wellFormed
  | keyed before qualifier between key after =>
    obtain ⟨front, inner, middle, ⟨-, -, whole, -⟩, back⟩ := wellFormed
    have front := not_semicolon_of_isBlankText front
    have middle := not_semicolon_of_isBlankText middle
    have back := not_semicolon_of_isBlankText back
    cases qualifier with
    | none => simp [render, front, middle, whole, back]
    | some qualifier => simp [render, front, middle, whole, back, (inner qualifier rfl).2]

end WrittenPiece

/-! ### Values -/

/-- The keys of a value, joined again, are the keys of that value exactly if none of them starts
with a bracket that closes. Keys that do not, written with qualifiers, blanks and blank pieces in
any of the places where these may stand, are read back exactly. -/
theorem normalize_joined (followingText : Text) :
    (∀ value,
      let listed := (normalize (.value value) followingText).map (·.key)
      (normalize (.value (joined listed)) followingText).map (·.key) = listed ↔
        ∀ key ∈ listed, ¬ IsQualified key) ∧
    ∀ written : List WrittenPiece, (∀ piece ∈ written, piece.WellFormed) →
      normalize (.value (joined (written.map WrittenPiece.render))) followingText =
        (written.filterMap WrittenPiece.key?).map .ofKey := by
  constructor
  · intro value listed
    have same : listed = keys (.value value) followingText := normalize_keys _ _
    have isKey : ∀ key ∈ listed, IsKey key ∧ ';' ∉ key := by
      intro key member
      rw [same] at member
      exact ⟨isKey_of_mem_keys member, not_separator_of_mem_keys member⟩
    -- None of the keys is cut, so each of them has to be its own key.
    rw [normalize_keys, keys_joined fun key member => (isKey key member).2, filterMap_eq_self_iff]
    refine forall₂_congr fun key member => ?_
    exact key?_eq_some_self_iff (isKey key member).1
  · intro written wellFormed
    have whole : ∀ text ∈ written.map WrittenPiece.render, ';' ∉ text := by
      rw [List.forall_mem_map]
      exact fun piece member => WrittenPiece.not_semicolon_mem_render (wellFormed piece member)
    have read : written.filterMap (key? ∘ WrittenPiece.render) =
        written.filterMap WrittenPiece.key? :=
      List.filterMap_congr fun piece member => WrittenPiece.key?_render (wellFormed piece member)
    rw [normalize, keys_joined whole, List.filterMap_map, read]

/-- Keys with brackets of their own, with and without qualifiers, and two blank pieces. -/
def writtenKeys : List WrittenPiece :=
  [.blank "\u2003".toList, .keyed [' '] (some "[a".toList) ['\n'] "[k".toList ['\t'], .blank [],
    .keyed [] none [] "b]c".toList "\u00a0".toList, .keyed [] (some []) [] "d e".toList []]

/-- The keys of the first value are read back as they are, and those of the second are not. -/
theorem normalize_writtenKeys :
    let value := "\u2003; [[a]\n[k\t;;b]c\u00a0;[]d e".toList
    (∀ piece ∈ writtenKeys, piece.WellFormed) ∧
      normalize (.value value) [] =
        [⟨"[k".toList, none⟩, ⟨"b]c".toList, none⟩, ⟨"d e".toList, none⟩] ∧
      (normalize (.value "[k;b]c;d e".toList) []).map (·.key) =
        ["[k".toList, "b]c".toList, "d e".toList] ∧
      (normalize (.value "[x][y]z;k".toList) []).map (·.key) = ["[y]z".toList, ['k']] ∧
      (normalize (.value "[y]z;k".toList) []).map (·.key) ≠ ["[y]z".toList, ['k']] := by
  intro value
  have wellFormed : ∀ piece ∈ writtenKeys, piece.WellFormed := by decide
  obtain ⟨again, read⟩ := normalize_joined []
  refine ⟨wellFormed, read writtenKeys wellFormed, (again value).mpr (by decide), rfl, ?_⟩
  exact mt (again "[x][y]z;k".toList).mp (by decide)

end KeyHarvest
