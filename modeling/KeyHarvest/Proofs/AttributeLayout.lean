import KeyHarvest.Proofs.AttributeForms
import KeyHarvest.Proofs.BufferAttributes
import KeyHarvest.Proofs.Marked
import KeyHarvest.Proofs.Parts

/-!
# How attributes lie in a text

`LaidOut` says how the attributes of a text lie in it: the names and values one behind the other,
between a name and its value the `=`, and around them nothing but delimiters. Every text, however
broken, is laid out in one way, and that gives its attributes (`laidOut_iff`). So every byte of the
text is accounted for: it is in a name or in a value, or it is a delimiter
(`LaidOut.exists_ranges`).
-/
namespace KeyHarvest
open CodeUnit

/-- What stands in no name: space, `=`, `/`, a quote or `>`. -/
def IsDelimiter (c : Char) : Prop :=
  isSpace c = true ∨ c = '=' ∨ c = '/' ∨ isQuote c = true ∨ c = '>'

theorem isDelimiter_iff {c : Char} : IsDelimiter c ↔ isAttributeNameUnit c = false := by
  rw [isAttributeNameUnit, IsDelimiter]
  simp only [Bool.and_eq_false_iff, Bool.not_eq_false', is_iff, or_assoc]

theorem isDelimiter_of_isQuote {c : Char} (quote : isQuote c = true) : IsDelimiter c :=
  .inr (.inr (.inr (.inl quote)))

def OnlyDelimiters (gap : Text) : Prop := ∀ c ∈ gap, IsDelimiter c

theorem onlyDelimiters_singleton {c : Char} (delimiter : IsDelimiter c) : OnlyDelimiters [c] :=
  List.forall_mem_singleton.mpr delimiter

theorem OnlyDelimiters.append {gap more : Text} (passed : OnlyDelimiters gap)
    (passed' : OnlyDelimiters more) : OnlyDelimiters (gap ++ more) :=
  List.forall_mem_append.mpr ⟨passed, passed'⟩

theorem onlyDelimiters_of_isSpace {space : Text} (spaces : Declaration.IsSpace space) :
    OnlyDelimiters space :=
  fun c member => .inl (spaces c member)

/-! ### The layout -/

/-- What stands behind the name of an attribute with a value: an `=` with space around it, the quote
of a quoted value, and the value. -/
structure Assignment where
  spaceBefore : Text
  spaceAfter : Text
  quote : Option Char
  value : Text
deriving DecidableEq, Repr

/-- A quoted value goes on up to its quote, and a bare one up to space; either may go on up to the
end of the text. -/
def ValueEnds (quote : Option Char) (value behind : Text) : Prop :=
  match quote with
  | some quote => isQuote quote = true ∧ quote ∉ value ∧ ∀ c ∈ behind.head?, c = quote
  | none =>
    (∀ c ∈ value, isSpace c = false) ∧ (∀ c ∈ value.head?, isQuote c = false) ∧
      (∀ c ∈ behind.head?, isSpace c = true) ∧ (value = [] → behind = [])

namespace Assignment

/-- What stands between the name and the value. -/
def opening (assignment : Assignment) : Text :=
  assignment.spaceBefore ++ '=' :: (assignment.spaceAfter ++ assignment.quote.toList)

def render (assignment : Assignment) : Text := assignment.opening ++ assignment.value

structure WellFormed (assignment : Assignment) (behind : Text) : Prop where
  spacesBefore : Declaration.IsSpace assignment.spaceBefore
  spacesAfter : Declaration.IsSpace assignment.spaceAfter
  ends : ValueEnds assignment.quote assignment.value behind

end Assignment

def IsAttributeName (name : Text) : Prop := name ≠ [] ∧ ∀ c ∈ name, ¬ IsDelimiter c

/-- The attributes lie in the text in this order. -/
inductive LaidOut : List (Attribute Char) → Text → Prop where
  | done {rest : Text} (gap : OnlyDelimiters rest) : LaidOut [] rest
  /-- A name without an `=` behind it. -/
  | alone {gap name behind : Text} {others : List (Attribute Char)} (passed : OnlyDelimiters gap)
      (named : IsAttributeName name) (stops : ∀ c ∈ behind.head?, IsDelimiter c)
      (noEquals : ∀ c ∈ (skipSpace behind).head?, c ≠ '=') (later : LaidOut others behind) :
      LaidOut (⟨name, none⟩ :: others) (gap ++ (name ++ behind))
  | assigned {gap name behind : Text} {assignment : Assignment} {others : List (Attribute Char)}
      (passed : OnlyDelimiters gap) (named : IsAttributeName name)
      (wellFormed : assignment.WellFormed behind) (later : LaidOut others behind) :
      LaidOut (⟨name, some assignment.value⟩ :: others)
        (gap ++ (name ++ (assignment.render ++ behind)))

namespace LaidOut

variable {declared : List (Attribute Char)} {text : Text}

theorem behind (laidOut : LaidOut declared text) {gap : Text} (passed : OnlyDelimiters gap) :
    LaidOut declared (gap ++ text) := by
  cases laidOut with
  | done passed' => exact .done (passed.append passed')
  | alone passed' named stops noEquals later =>
    rw [← List.append_assoc]
    exact .alone (passed.append passed') named stops noEquals later
  | assigned passed' named wellFormed later =>
    rw [← List.append_assoc]
    exact .assigned (passed.append passed') named wellFormed later

end LaidOut

/-! ### Every text is laid out -/

theorem exists_space (text : Text) :
    ∃ space, Declaration.IsSpace space ∧ text = space ++ skipSpace text :=
  ⟨text.takeWhile isSpace, all_takeWhile, List.takeWhile_append_dropWhile.symm⟩

theorem valueEnds_quoted {quote : Char} (delimits : isQuote quote = true) (rest : Text) :
    ValueEnds (some quote) (rest.takeWhile (!is quote ·)) (rest.dropWhile (!is quote ·)) := by
  refine ⟨delimits, forall_not_is_iff.mp fun c inside => ?_, fun c first => ?_⟩
  · simpa using all_takeWhile c inside
  · have closes := head_dropWhile (!is quote ·) rest c first
    exact is_iff.mp (by simpa using closes)

theorem valueEnds_bare {a : Char} (starts : isSpace a = false) (other : isQuote a = false)
    (rest : Text) :
    ValueEnds none ((a :: rest).takeWhile (!isSpace ·)) ((a :: rest).dropWhile (!isSpace ·)) := by
  have first : (!isSpace a) = true := by simp [starts]
  refine ⟨fun c inside => ?_, ?_, fun c next => ?_, ?_⟩
  · simpa using all_takeWhile c inside
  · rw [List.takeWhile_cons, if_pos first]
    rintro c ⟨⟩
    exact other
  · simpa using head_dropWhile (!isSpace ·) (a :: rest) c next
  · rw [List.takeWhile_cons, if_pos first]
    rintro ⟨⟩

/-- What a reader of values takes, with the quote that ends it if there is one. -/
theorem exists_value (text : Text) :
    ∃ (space : Text) (quote : Option Char) (closing : Text),
      Declaration.IsSpace space ∧ OnlyDelimiters closing ∧
      text = space ++ (quote.toList ++ ((readAttributeValue text).1 ++
        (closing ++ (readAttributeValue text).2))) ∧
      ValueEnds quote (readAttributeValue text).1 (closing ++ (readAttributeValue text).2) := by
  obtain ⟨space, spaces, whole⟩ := exists_space text
  have none : OnlyDelimiters [] := by simp [OnlyDelimiters]
  cases skipped : skipSpace text with
  | nil =>
    have read : readAttributeValue text = ([], []) := by rw [readAttributeValue, skipped]
    rw [skipped] at whole
    rw [read]
    exact ⟨space, .none, [], spaces, none, whole, by simp [ValueEnds]⟩
  | cons a rest =>
    rw [skipped] at whole
    by_cases delimits : isQuote a = true
    · -- Behind the value stands its quote, or nothing.
      have ends := valueEnds_quoted delimits rest
      have closing : OnlyDelimiters ((rest.dropWhile (!is a ·)).take 1) := by
        intro c inside
        rw [List.take_one] at inside
        rw [ends.2.2 c (Option.mem_toList.mp inside)]
        exact isDelimiter_of_isQuote delimits
      rw [readAttributeValue_of_isQuote skipped delimits]
      refine ⟨space, some a, _, spaces, closing, ?_, ?_⟩
      · rw [List.take_append_drop, List.takeWhile_append_dropWhile]
        exact whole
      · rwa [List.take_append_drop]
    · rw [Bool.not_eq_true] at delimits
      have ends := valueEnds_bare (Reading.head_skipSpace skipped) delimits rest
      rw [readAttributeValue_of_not_isQuote skipped delimits]
      refine ⟨space, .none, [], spaces, none, ?_, ends⟩
      rw [List.nil_append, List.takeWhile_append_dropWhile]
      exact whole

/-- What a reader of assignments takes behind a name. -/
theorem exists_assignment (text : Text) :
    (∃ space, Declaration.IsSpace space ∧ (readAssignment text).1 = none ∧
        text = space ++ (readAssignment text).2 ∧
        ∀ c ∈ (skipSpace text).head?, c ≠ '=') ∨
      ∃ (assignment : Assignment) (closing : Text), OnlyDelimiters closing ∧
        (readAssignment text).1 = some assignment.value ∧
        text = assignment.render ++ (closing ++ (readAssignment text).2) ∧
        assignment.WellFormed (closing ++ (readAssignment text).2) := by
  obtain ⟨space, spaces, whole⟩ := exists_space text
  cases skipped : skipSpace text with
  | nil =>
    have read : readAssignment text = (none, []) := by rw [readAssignment, skipped]
    rw [skipped] at whole
    rw [read]
    exact .inl ⟨space, spaces, rfl, whole, by simp⟩
  | cons a rest =>
    rw [skipped] at whole
    by_cases equals : a = '='
    · subst equals
      obtain ⟨spaceAfter, quote, closing, spacesAfter, delimits, taken, ends⟩ := exists_value rest
      have read : readAssignment text =
          (some (readAttributeValue rest).1, (readAttributeValue rest).2) := by
        rw [readAssignment, skipped]
        rfl
      rw [read]
      refine .inr ⟨⟨space, spaceAfter, quote, (readAttributeValue rest).1⟩, closing, delimits, rfl,
        ?_, ⟨spaces, spacesAfter, ends⟩⟩
      calc text = space ++ '=' :: rest := whole
        _ = space ++ '=' :: (spaceAfter ++ (quote.toList ++ ((readAttributeValue rest).1 ++
            (closing ++ (readAttributeValue rest).2)))) := by rw [← taken]
        _ = _ := by simp [Assignment.render, Assignment.opening]
    · have next : ∀ c ∈ (skipSpace text).head?, c ≠ '=' := by
        rw [skipped]
        rintro c ⟨⟩
        exact equals
      rw [readAssignment_none next, skipped]
      refine .inl ⟨space, spaces, rfl, whole, ?_⟩
      rwa [skipped] at next

/-- What a turn of reading attributes may do: come to the end, pass over a delimiter, or read an
attribute. -/
inductive AttributeTurn : Text → Option (Option (Attribute Char) × Text) → Prop where
  | done {rest : Text} (gap : OnlyDelimiters rest) : AttributeTurn rest none
  | passed {gap after : Text} (passed : OnlyDelimiters gap) :
      AttributeTurn (gap ++ after) (some (none, after))
  | declared {gap name tail : Text} (passed : OnlyDelimiters gap) (named : IsAttributeName name)
      (stops : ∀ c ∈ tail.head?, IsDelimiter c) :
      AttributeTurn (gap ++ (name ++ tail))
        (some (some ⟨name, (readAssignment tail).1⟩, (readAssignment tail).2))

theorem isAttributeName_takeWhile {a : Char} (unit : isAttributeNameUnit a = true) (rest : Text) :
    IsAttributeName ((a :: rest).takeWhile isAttributeNameUnit) := by
  constructor
  · rw [List.takeWhile_cons, if_pos unit]
    exact List.cons_ne_nil _ _
  · intro c inside delimiter
    have unit := all_takeWhile c inside
    rw [isDelimiter_iff.mp delimiter] at unit
    cases unit

theorem attributeTurn_readAttribute (text : Text) : AttributeTurn text (readAttribute text) := by
  obtain ⟨space, spaces, whole⟩ := exists_space text
  have gap := onlyDelimiters_of_isSpace spaces
  rw [readAttribute]
  cases skipped : skipSpace text with
  | nil =>
    rw [whole, skipped, List.append_nil]
    exact .done gap
  | cons a rest =>
    rw [skipped] at whole
    dsimp only
    split
    next unit =>
      have stops : ∀ c ∈ ((a :: rest).dropWhile isAttributeNameUnit).head?, IsDelimiter c :=
        fun c first => isDelimiter_iff.mpr (head_dropWhile isAttributeNameUnit _ c first)
      have turn := AttributeTurn.declared gap (isAttributeName_takeWhile unit rest) stops
      rw [List.takeWhile_append_dropWhile] at turn
      rwa [whole]
    next other =>
      rw [Bool.not_eq_true] at other
      rw [whole, List.append_cons]
      exact .passed (gap.append (onlyDelimiters_singleton (isDelimiter_iff.mpr other)))

/-- The attributes of a text are laid out in it. -/
theorem laidOut_attributes (text : Text) : LaidOut (attributes text) text := by
  fun_induction attributes text with
  | case1 text read =>
    have turn := attributeTurn_readAttribute text
    rw [read] at turn
    cases turn with
    | done gap => exact .done gap
  | case2 text after read ih =>
    have turn := attributeTurn_readAttribute text
    rw [read] at turn
    cases turn with
    | passed passed => exact ih.behind passed
  | case3 text declared after read ih =>
    have turn := attributeTurn_readAttribute text
    rw [read] at turn
    cases turn with
    | @declared gap name tail passed named stops =>
      rcases exists_assignment tail with ⟨space, spaces, alone, whole, noEquals⟩ | assigned
      · have later := ih.behind (onlyDelimiters_of_isSpace spaces)
        rw [← whole] at later
        rw [alone]
        exact .alone passed named stops noEquals later
      · obtain ⟨assignment, closing, closes, value, whole, wellFormed⟩ := assigned
        have laidOut := LaidOut.assigned passed named wellFormed (ih.behind closes)
        rw [← whole] at laidOut
        rwa [value]

/-! ### A layout gives the attributes -/

theorem attributes_behind {gap : Text} (passed : OnlyDelimiters gap) (text : Text) :
    attributes (gap ++ text) = attributes text := by
  -- Unit by unit: a turn of `attributes` may take a name from behind the gap with it.
  rw [Reading.attributes_eq_run, Reading.attributes_eq_run]
  induction gap with
  | nil => rfl
  | cons c gap ih =>
    have other := isDelimiter_iff.mp (passed c List.mem_cons_self)
    rw [List.cons_append, Reading.run_between_cons other]
    exact ih fun d member => passed d (List.mem_cons_of_mem c member)

theorem IsAttributeName.isName {name : Text} (named : IsAttributeName name) :
    Declaration.IsName name := by
  refine ⟨named.1, fun c member => ?_⟩
  have unit := named.2 c member
  rwa [isDelimiter_iff, Bool.not_eq_false] at unit

/-- A value that is laid out is read whole, and nothing that declares an attribute is read with
it. -/
theorem exists_read_of_valueEnds {space value behind : Text} {quote : Option Char}
    (spaces : Declaration.IsSpace space) (ends : ValueEnds quote value behind) :
    ∃ after, readAttributeValue (space ++ (quote.toList ++ (value ++ behind))) = (value, after) ∧
      attributes after = attributes behind := by
  cases quote with
  | some quote =>
    obtain ⟨delimits, inside, closes⟩ := ends
    have passed := forall_not_is_iff.mpr inside
    have units : ∀ c ∈ value, (!is quote c) = true := by simpa using passed
    have stops : ∀ c ∈ behind.head?, (!is quote c) = false := by
      intro c first
      simp [closes c first]
    have skipped : skipSpace (space ++ quote :: (value ++ behind)) = quote :: (value ++ behind) :=
      skipSpace_append spaces (isSpace_of_isQuote delimits)
    refine ⟨behind.drop 1, ?_, ?_⟩
    · have read := readAttributeValue_of_isQuote skipped delimits
      rwa [takeWhile_run units stops, dropWhile_run units stops] at read
    · cases behind with
      | nil => rfl
      | cons c rest =>
        have closing : OnlyDelimiters [c] := by
          rw [closes c rfl]
          exact onlyDelimiters_singleton (isDelimiter_of_isQuote delimits)
        exact (attributes_behind closing rest).symm
  | none =>
    obtain ⟨unspaced, unquoted, next, empty⟩ := ends
    cases value with
    | nil =>
      rw [empty rfl]
      have skipped : skipSpace (space ++ []) = [] := dropWhile_run spaces (by simp)
      refine ⟨[], ?_, rfl⟩
      change readAttributeValue (space ++ []) = _
      rw [readAttributeValue, skipped]
    | cons first others =>
      have formed : Declaration.FormWellFormed (.bare (first :: others)) :=
        ⟨unspaced, first, others, rfl, unquoted first rfl⟩
      exact ⟨behind, readAttributeValue_bare spaces formed next, rfl⟩

theorem attributes_of_laidOut {declared : List (Attribute Char)} {text : Text}
    (laidOut : LaidOut declared text) : attributes text = declared := by
  have none : Declaration.IsSpace [] := by simp [Declaration.IsSpace]
  induction laidOut with
  | done gap => exact attributes_of_nameless fun c member => isDelimiter_iff.mp (gap c member)
  | @alone gap name behind others passed named stops noEquals later ih =>
    have read := attributes_name none named.isName fun c first =>
      isDelimiter_iff.mp (stops c first)
    rw [readAssignment_none noEquals, attributes_skipSpace, ih] at read
    rw [attributes_behind passed]
    exact read
  | @assigned gap name behind assignment others passed named wellFormed later ih =>
    obtain ⟨after, taken, same⟩ := exists_read_of_valueEnds wellFormed.spacesAfter wellFormed.ends
    have rendered : assignment.render ++ behind = assignment.spaceBefore ++ '=' ::
        (assignment.spaceAfter ++ (assignment.quote.toList ++ (assignment.value ++ behind))) := by
      simp [Assignment.render, Assignment.opening]
    have read := attributes_name none named.isName (head_equals wellFormed.spacesBefore
      (assignment.spaceAfter ++ (assignment.quote.toList ++ (assignment.value ++ behind))))
    rw [readAssignment_equals wellFormed.spacesBefore, taken, same, ih, ← rendered] at read
    rw [attributes_behind passed]
    exact read

/-- A text has one layout, which is that of its attributes. -/
theorem laidOut_iff {declared : List (Attribute Char)} {text : Text} :
    LaidOut declared text ↔ attributes text = declared := by
  constructor
  · exact attributes_of_laidOut
  · rintro rfl
    exact laidOut_attributes text

/-! ### Places in the text -/

/-- At this place of a text stands a delimiter. -/
def DelimiterAt (text : Text) (place : Nat) : Prop :=
  ∃ before c after, text = before ++ c :: after ∧ size before = place ∧ IsDelimiter c

def ByteRange.Holds (range : ByteRange) (place : Nat) : Prop :=
  range.start ≤ place ∧ place < range.stop

/-- The ranges cut the parts out of a text, one behind the other, and leave nothing but delimiters
from `start` on. -/
structure CutsOut (text : Text) (start : Nat) (parts : List Text) (ranges : List ByteRange) :
    Prop where
  cut : ranges.map (Buffer.of text).part = parts.map .ok
  apart : ranges.Pairwise (fun left right => left.stop ≤ right.start)
  ordered : ∀ range ∈ ranges, start ≤ range.start ∧ range.start ≤ range.stop
  accounted : ∀ place, start ≤ place → place < size text →
    (∃ range ∈ ranges, range.Holds place) ∨ DelimiterAt text place

theorem width_of_isDelimiter {c : Char} (delimiter : IsDelimiter c) : width c = 1 := by
  have ascii := Buffer.ascii_of_not_isAttributeNameUnit (isDelimiter_iff.mp delimiter)
  simpa using size_append_ascii [] ascii

theorem delimiterAt_of_gap {gap : Text} (passed : OnlyDelimiters gap) (before rest : Text)
    {place : Nat} (low : size before ≤ place) (high : place < size before + size gap) :
    DelimiterAt (before ++ (gap ++ rest)) place := by
  induction gap generalizing before with
  | nil =>
    rw [size_nil] at high
    omega
  | cons c gap ih =>
    have delimiter := passed c List.mem_cons_self
    have narrow := width_of_isDelimiter delimiter
    by_cases here : size before = place
    · exact ⟨before, c, gap ++ rest, rfl, here, delimiter⟩
    · rw [List.cons_append, List.append_cons]
      rw [size_cons] at high
      apply ih (fun d member => passed d (List.mem_cons_of_mem c member)) (before ++ [c])
      · simp [narrow]
        omega
      · simp [narrow]
        omega

namespace CutsOut

variable {parts : List Text} {ranges : List ByteRange} {text before gap rest : Text}

theorem nil (whole : text = before ++ rest) (passed : OnlyDelimiters rest) :
    CutsOut text (size before) [] [] := by
  refine ⟨rfl, .nil, by simp, fun place low high => .inr ?_⟩
  have gap := delimiterAt_of_gap passed before [] low
  rw [List.append_nil, ← whole] at gap
  apply gap
  rwa [whole, size_append] at high

/-- One more part in front, behind a gap. -/
theorem cons {part : Text} (whole : text = before ++ (gap ++ (part ++ rest)))
    (passed : OnlyDelimiters gap)
    (later : CutsOut text (size before + size gap + size part) parts ranges) :
    CutsOut text (size before) (part :: parts)
      (⟨size before + size gap, size before + size gap + size part⟩ :: ranges) := by
  have here : (Buffer.of text).part ⟨size before + size gap, size before + size gap + size part⟩ =
      .ok part := by
    refine Buffer.slice_eq_ok_iff.mpr ⟨before ++ gap, rest, ?_, by simp, by simp [Nat.add_assoc]⟩
    simpa [Buffer.of] using whole
  refine ⟨?_, ?_, ?_, ?_⟩
  · rw [List.map_cons, List.map_cons, here, later.cut]
  · exact .cons (fun range member => (later.ordered range member).1) later.apart
  · intro range member
    rcases List.mem_cons.mp member with rfl | member
    · exact ⟨Nat.le_add_right _ _, Nat.le_add_right _ _⟩
    · have bound := later.ordered range member
      omega
  · intro place low high
    -- The place is in the gap, in the part or behind both.
    by_cases inGap : place < size before + size gap
    · rw [whole]
      exact .inr (delimiterAt_of_gap passed before _ low inGap)
    · by_cases inPart : place < size before + size gap + size part
      · exact .inl ⟨_, List.mem_cons_self, Nat.le_of_not_lt inGap, inPart⟩
      · rcases later.accounted place (Nat.le_of_not_lt inPart) high with held | delimiter
        · obtain ⟨range, member, holds⟩ := held
          exact .inl ⟨range, List.mem_cons_of_mem _ member, holds⟩
        · exact .inr delimiter

end CutsOut

/-- The name of an attribute and, if it has one, its value. -/
def Attribute.parts {α : Type} (declared : Attribute α) : List (List α) :=
  declared.name :: declared.value.toList

theorem Assignment.WellFormed.onlyDelimiters_opening {assignment : Assignment} {behind : Text}
    (wellFormed : assignment.WellFormed behind) : OnlyDelimiters assignment.opening := by
  have quoted : OnlyDelimiters assignment.quote.toList := by
    have ends := wellFormed.ends
    cases quote : assignment.quote with
    | none => exact List.forall_mem_nil _
    | some c =>
      rw [quote] at ends
      exact onlyDelimiters_singleton (isDelimiter_of_isQuote ends.1)
  have equals : OnlyDelimiters ['='] := onlyDelimiters_singleton (.inr (.inl rfl))
  have before := (onlyDelimiters_of_isSpace wellFormed.spacesBefore).append equals
  have after := (onlyDelimiters_of_isSpace wellFormed.spacesAfter).append quoted
  rw [Assignment.opening, List.append_cons]
  exact before.append after

/-- The names and values of a layout stand in ranges of bytes that leave only delimiters. -/
theorem LaidOut.exists_ranges {declared : List (Attribute Char)} {text before rest : Text}
    (laidOut : LaidOut declared rest) (whole : text = before ++ rest) :
    ∃ ranges, CutsOut text (size before) (declared.flatMap Attribute.parts) ranges := by
  -- The whole text stays: what is already cut out goes over to `before`.
  induction laidOut generalizing before with
  | done gap => exact ⟨[], .nil whole gap⟩
  | @alone gap name behind others passed named stops noEquals later ih =>
    obtain ⟨ranges, cuts⟩ := @ih (before ++ gap ++ name) (by simp [whole])
    simp only [size_append] at cuts
    exact ⟨_, .cons whole passed cuts⟩
  | @assigned gap name behind assignment others passed named wellFormed later ih =>
    have whole' : text =
        (before ++ gap ++ name) ++ (assignment.opening ++ (assignment.value ++ behind)) := by
      simp [whole, Assignment.render]
    obtain ⟨ranges, cuts⟩ :=
      @ih (before ++ gap ++ name ++ assignment.opening ++ assignment.value) (by simp [whole'])
    rw [size_append, size_append] at cuts
    have value := CutsOut.cons whole' wellFormed.onlyDelimiters_opening cuts
    rw [size_append, size_append] at value
    exact ⟨_, .cons whole passed value⟩

/-! ### Names that are not there -/

theorem LaidOut.isAttributeName {declared : List (Attribute Char)} {text : Text}
    (laidOut : LaidOut declared text) : ∀ named ∈ declared, IsAttributeName named.name := by
  induction laidOut with
  | done gap => simp
  | alone passed named stops noEquals later ih => exact List.forall_mem_cons.mpr ⟨named, ih⟩
  | assigned passed named wellFormed later ih => exact List.forall_mem_cons.mpr ⟨named, ih⟩

/-- Every text is laid out by its attributes and in no other way, every byte of it is in a name, in
a value or a delimiter, and a name is found only if it is one and stands in the text. -/
theorem attributes_account (text : Text) :
    (∀ declared, LaidOut declared text ↔ attributes text = declared) ∧
      (∃ ranges, CutsOut text 0 ((attributes text).flatMap Attribute.parts) ranges) ∧
      ∀ name, name = [] ∨ (∃ c ∈ name, IsDelimiter c) ∨ ¬ name <:+: text →
        lookup (attributes text) name = .absent := by
  refine ⟨fun declared => laidOut_iff, ?_, fun name bad => lookup_absent ?_⟩
  · exact @LaidOut.exists_ranges _ text [] text (laidOut_attributes text) rfl
  · rintro named member rfl
    have isName := (laidOut_attributes text).isAttributeName named member
    rcases bad with empty | ⟨c, inside, delimiter⟩ | elsewhere
    · exact isName.1 empty
    · exact isName.2 c inside delimiter
    · exact elsewhere (standsIn_of_mem_attributes member).1

/-- A stray quote, two `=` in a row, a `/` and a quote that is never closed. -/
def brokenAttributes : Text := "é'/b= ==\"x> c = 'd>\" e".toList

theorem attributes_account_brokenAttributes :
    (∃ c ∈ "b=".toList, IsDelimiter c) ∧
      lookup (attributes brokenAttributes) "b=".toList = .absent ∧
      ∃ ranges, CutsOut brokenAttributes 0
        ["é".toList, "b".toList, "==\"x>".toList, "c".toList, "d>\" e".toList] ranges := by
  have read : attributes brokenAttributes =
      [⟨"é".toList, none⟩, ⟨"b".toList, some "==\"x>".toList⟩,
        ⟨"c".toList, some "d>\" e".toList⟩] := by
    rw [Reading.attributes_eq_run]
    decide
  have bad : ∃ c ∈ "b=".toList, IsDelimiter c := ⟨'=', by decide, .inr (.inl rfl)⟩
  obtain ⟨-, cuts, absent⟩ := attributes_account brokenAttributes
  refine ⟨bad, absent _ (.inr (.inl bad)), ?_⟩
  rwa [read] at cuts

end KeyHarvest
