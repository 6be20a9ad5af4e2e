import KeyHarvest.Proofs.Construct

/-!
# How a scan proceeds

The tags of a scan by its turns, and then by what stands at the place of the scanner: plain text is
passed over, a complete construct is read, and at markup without an end the scan is over.
-/
namespace KeyHarvest
open CodeUnit

namespace Scanner

variable {α : Type} [CodeUnit α]

/-! ### Turns -/

theorem tags_of_finished {scanner : Scanner α} (went : scanner.turn = .finished) :
    scanner.tags = [] := by
  have next : scanner.next = (none, ⟨[], scanner.offset + size scanner.rest⟩) := by
    rw [next.eq_def]
    split <;> simp_all
  rw [tags.eq_def]
  split <;> simp_all

theorem tags_of_found {scanner after : Scanner α} {tag : Tag α}
    (went : scanner.turn = .found tag after) : scanner.tags = tag :: after.tags := by
  have next : scanner.next = (some tag, after) := by
    rw [next.eq_def]
    split <;> simp_all
  rw [tags.eq_def]
  split <;> simp_all

theorem tags_of_skipped {scanner after : Scanner α} (went : scanner.turn = .skipped after) :
    scanner.tags = after.tags := by
  have next : scanner.next = after.next := by
    rw [next.eq_def]
    split <;> simp_all
  rw [tags.eq_def, tags.eq_def after, next]

/-- A scan has no memory: its tags depend on its next turn only. -/
theorem tags_of_turn_eq {left right : Scanner α} (same : left.turn = right.turn) :
    left.tags = right.tags := by
  cases went : right.turn with
  | finished => rw [tags_of_finished went, tags_of_finished (same.trans went)]
  | skipped after => rw [tags_of_skipped went, tags_of_skipped (same.trans went)]
  | found tag after => rw [tags_of_found went, tags_of_found (same.trans went)]

/-! ### Text and constructs -/

theorem turn_text {content rest : List α} (plain : FailsWithin startsMarkup content rest)
    (offset : Nat) :
    turn ⟨content ++ rest, offset⟩ = turn ⟨rest, offset + size content⟩ := by
  simp only [turn, splitBefore_of_fails plain, size_append, Nat.add_assoc]

/-- Text in which no construct starts only moves the scan on. -/
theorem tags_text {content rest : List α} (plain : FailsWithin startsMarkup content rest)
    (offset : Nat) :
    tags ⟨content ++ rest, offset⟩ = tags ⟨rest, offset + size content⟩ :=
  tags_of_turn_eq (turn_text plain offset)

theorem tags_nil (offset : Nat) : tags (⟨[], offset⟩ : Scanner α) = [] :=
  tags_of_finished rfl

end Scanner

/-- What a scan reports of a construct at an offset, given the text behind the construct. -/
def Construct.tags {α : Type} [CodeUnit α] (offset : Nat) (after : List α) :
    Construct α → List (Tag α)
  | .tag name attributes => [⟨name, attributes, (splitBefore startsMarkup after).1, offset⟩]
  | _ => []

namespace Scanner

theorem turn_markup {markup : Text} (starts : startsMarkup markup = true) (offset : Nat) :
    turn ⟨markup, offset⟩ =
      match Construct.read? markup with
      | none => .finished
      | some (.tag name attributes, after) =>
        .found ⟨name, attributes, (splitBefore startsMarkup after).1, offset⟩
          ⟨after, offset + (Construct.tag name attributes).size⟩
      | some (construct, after) => .skipped ⟨after, offset + construct.size⟩ := by
  simp only [turn, splitBefore_of_test starts, size_nil, Nat.add_zero]
  cases Construct.read? markup with
  | none => rfl
  | some reading =>
    obtain ⟨construct, after⟩ := reading
    cases construct <;> rfl

/-- A complete construct is read, and the scan goes on behind it. -/
theorem tags_construct {construct : Construct Char} {after : Text}
    (complete : construct.Complete after) (offset : Nat) :
    tags ⟨construct.render ++ after, offset⟩ =
      construct.tags offset after ++ tags ⟨after, offset + construct.size⟩ := by
  have starts := Construct.starts_of_complete complete
  have read := (Construct.read?_eq_some_iff starts).mpr ⟨rfl, complete⟩
  have went := turn_markup starts offset
  rw [read] at went
  cases construct with
  | comment inner => exact tags_of_skipped went
  | directive body => exact tags_of_skipped went
  | tag name attributes => exact tags_of_found went

/-- A turn that goes on takes a part of the text, of which it counts the bytes. -/
theorem exists_of_turn {scanner after : Scanner Char}
    (went : scanner.turn = .skipped after ∨ ∃ tag, scanner.turn = .found tag after) :
    ∃ taken, scanner.rest = taken ++ after.rest ∧ after.offset = scanner.offset + size taken := by
  have cut : splitBefore startsMarkup scanner.rest =
      ((splitBefore startsMarkup scanner.rest).1, (splitBefore startsMarkup scanner.rest).2) := rfl
  obtain ⟨whole, -, starts⟩ := splitBefore_eq_iff.mp cut
  unfold turn at went
  cases read : Construct.read? (splitBefore startsMarkup scanner.rest).2 with
  | none => simp [read] at went
  | some reading =>
    obtain ⟨construct, rest⟩ := reading
    have some : (splitBefore startsMarkup scanner.rest).2 ≠ [] := by
      intro ended
      rw [ended] at read
      cases read
    obtain ⟨markup, -⟩ := (Construct.read?_eq_some_iff (starts some)).mp read
    have equal : after = ⟨rest, scanner.offset +
        size (splitBefore startsMarkup scanner.rest).1 + construct.size⟩ := by
      cases construct <;> simp [read] at went <;> simp [← went]
    refine ⟨(splitBefore startsMarkup scanner.rest).1 ++ construct.render, ?_, ?_⟩
    · rw [equal, List.append_assoc, ← markup]
      exact whole
    · rw [equal, size_append, Construct.size_render, Nat.add_assoc]

/-- At markup without an end the scan is over. -/
theorem tags_unfinished {markup : Text} (starts : startsMarkup markup = true)
    (unfinished : Construct.Unfinished markup) (offset : Nat) :
    tags ⟨markup, offset⟩ = [] := by
  apply tags_of_finished
  rw [turn_markup starts, (Construct.read?_eq_none_iff starts).mpr unfinished]

end Scanner

end KeyHarvest
