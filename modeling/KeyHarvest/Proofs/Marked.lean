import KeyHarvest.Keys.Extraction
import KeyHarvest.Proofs.Cuts

/-!
# Tags that can be passed over

Every name and every value that is read from an attribute text stands in it. A tag whose attribute
text does not hold the name of the key attribute therefore has no keys, and an extraction that
passes over it loses nothing (`collect_marked`).
-/
namespace KeyHarvest
open CodeUnit

/-! ### Attributes stand in the text -/

/-- The attribute stands in the text: its name and, if it has one, its value. -/
def Attribute.StandsIn {α : Type} (text : List α) (declared : Attribute α) : Prop :=
  declared.name <:+: text ∧ ∀ value ∈ declared.value, value <:+: text

theorem Attribute.StandsIn.mono {α : Type} {text whole : List α} {declared : Attribute α}
    (stands : declared.StandsIn text) (inside : text <:+: whole) : declared.StandsIn whole :=
  ⟨stands.1.trans inside, fun value member => (stands.2 value member).trans inside⟩

section Attributes

variable {α : Type} [CodeUnit α]

theorem readAttributeValue_pieces (text : List α) :
    (readAttributeValue text).1 <:+: text ∧ (readAttributeValue text).2 <:+ text := by
  have skipped : skipSpace text <:+ text := List.dropWhile_suffix isSpace
  rw [readAttributeValue]
  split
  · exact ⟨List.nil_suffix.isInfix, List.nil_suffix⟩
  next a rest equal =>
    rw [equal] at skipped
    have behind : rest <:+ text := (List.suffix_cons a rest).trans skipped
    have quoted (quote : Char) : rest.takeWhile (!is quote ·) <:+: text ∧
        (rest.dropWhile (!is quote ·)).drop 1 <:+ text := by
      constructor
      · exact (List.takeWhile_prefix _).isInfix.trans behind.isInfix
      · exact ((List.drop_suffix 1 _).trans (List.dropWhile_suffix _)).trans behind
    split
    · exact quoted '"'
    · split
      · exact quoted '\''
      · constructor
        · exact (List.takeWhile_prefix _).isInfix.trans skipped.isInfix
        · exact (List.dropWhile_suffix _).trans skipped

theorem readAssignment_pieces (text : List α) :
    (∀ value ∈ (readAssignment text).1, value <:+: text) ∧ (readAssignment text).2 <:+ text := by
  have skipped : skipSpace text <:+ text := List.dropWhile_suffix isSpace
  rw [readAssignment]
  split
  · exact ⟨by simp, List.nil_suffix⟩
  next a rest equal =>
    rw [equal] at skipped
    split
    · have behind : rest <:+ text := (List.suffix_cons a rest).trans skipped
      have pieces := readAttributeValue_pieces rest
      constructor
      · rintro value ⟨⟩
        exact pieces.1.trans behind.isInfix
      · exact pieces.2.trans behind
    · exact ⟨by simp, skipped⟩

/-- One turn reads an attribute from the text and leaves an end of the text. -/
theorem readAttribute_pieces {text after : List α} {declared : Option (Attribute α)}
    (read : readAttribute text = some (declared, after)) :
    after <:+ text ∧ ∀ named ∈ declared, named.StandsIn text := by
  have skipped : skipSpace text <:+ text := List.dropWhile_suffix isSpace
  rw [readAttribute] at read
  split at read
  · cases read
  next a rest equal =>
    rw [equal] at skipped
    split at read
    · have behind := (List.dropWhile_suffix (l := a :: rest) isAttributeNameUnit).trans skipped
      have pieces := readAssignment_pieces ((a :: rest).dropWhile isAttributeNameUnit)
      cases read
      constructor
      · exact pieces.2.trans behind
      · rintro named ⟨⟩
        refine ⟨(List.takeWhile_prefix _).isInfix.trans skipped.isInfix, ?_⟩
        exact fun value member => (pieces.1 value member).trans behind.isInfix
    · -- The unit starts no name and is passed over.
      cases read
      refine ⟨(List.suffix_cons a after).trans skipped, ?_⟩
      rintro named ⟨⟩

theorem standsIn_of_mem_attributes {text : List α} {declared : Attribute α}
    (member : declared ∈ attributes text) : declared.StandsIn text := by
  fun_induction attributes text with
  | case1 text read => cases member
  | case2 text after read ih =>
    have pieces := readAttribute_pieces read
    exact (ih member).mono pieces.1.isInfix
  | case3 text first after read ih =>
    have pieces := readAttribute_pieces read
    rcases List.mem_cons.mp member with rfl | member
    · exact pieces.2 declared rfl
    · exact (ih member).mono pieces.1.isInfix

end Attributes

/-! ### Tags without the key attribute -/

theorem lookup_absent {declared : List (Attribute Char)} {name : Text}
    (other : ∀ named ∈ declared, named.name ≠ name) : lookup declared name = .absent := by
  have missing : declared.find? (·.name = name) = none := by
    simpa [List.find?_eq_none] using other
  rw [lookup, missing]

theorem harvest_of_absent {markers : Markers} {tag : Tag Char}
    (absent : lookup (attributes tag.attributes) markers.attr = .absent) :
    harvest markers tag = ⟨tag, [], none⟩ := by
  rw [harvest, absent]
  rfl

theorem harvest_unmarked {markers : Markers} {tag : Tag Char}
    (unmarked : contains markers.attr tag.attributes = false) :
    harvest markers tag = ⟨tag, [], none⟩ := by
  refine harvest_of_absent (lookup_absent ?_)
  intro named member equal
  -- A name that is declared stands in the attribute text.
  have stands := contains_iff.mpr (standsIn_of_mem_attributes member).1
  rw [equal, unmarked] at stands
  cases stands

/-- The warning about a harvest, if its options cannot be used. -/
def Harvest.warnings (line : Nat → Nat) (harvest : Harvest) : List Warning :=
  (harvest.problem.map fun problem =>
    ⟨line harvest.tag.offset, warningMessage harvest.tag problem⟩).toList

theorem collect_cons (line : Nat → Nat) (first : Harvest) (others : List Harvest) :
    collect line (first :: others) =
      ⟨first.records ++ (collect line others).records,
        first.warnings line ++ (collect line others).warnings⟩ := by
  obtain ⟨tag, records, problem⟩ := first
  cases problem with
  | none => rfl
  | some problem => rfl

/-- Passing over the tags without the mark loses no record and no warning. -/
theorem collect_marked (line : Nat → Nat) (markers : Markers) (tags : List (Tag Char)) :
    collect line ((tags.filter fun tag => contains markers.attr tag.attributes).map
      (harvest markers)) = collect line (tags.map (harvest markers)) := by
  induction tags with
  | nil => rfl
  | cons tag tags ih =>
    rw [List.map_cons, collect_cons, ← ih]
    cases mark : contains markers.attr tag.attributes with
    | true => rw [List.filter_cons_of_pos (by simpa using mark), List.map_cons, collect_cons]
    | false =>
      -- The tag is left out on one side and adds nothing on the other.
      rw [List.filter_cons_of_neg (by simp [mark]), harvest_unmarked mark]
      rfl

end KeyHarvest
