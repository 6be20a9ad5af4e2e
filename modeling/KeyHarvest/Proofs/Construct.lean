import KeyHarvest.Proofs.TagEnd

/-!
# What is read as a construct

`Construct.render` writes a construct down, and `Construct.Complete` says when the text that it is
written as is read back as this construct, given the text behind it. `Construct.read?_eq_some_iff`
and `Construct.read?_eq_none_iff` describe the reader in these terms.
-/
namespace KeyHarvest
open CodeUnit

/-! ### Places where markup starts -/

theorem startsMarkup_iff {text : Text} :
    startsMarkup text = true ↔
      ∃ a rest, text = '<' :: a :: rest ∧ (isLetter a = true ∨ a = '/' ∨ a = '!' ∨ a = '?') := by
  constructor
  · intro starts
    match text, starts with
    | first :: a :: rest, starts =>
      simp only [startsMarkup, Bool.and_eq_true, Bool.or_eq_true, is_iff] at starts
      obtain ⟨rfl, ((letter | slash) | bang) | question⟩ := starts
      · exact ⟨a, rest, rfl, .inl letter⟩
      · exact ⟨a, rest, rfl, .inr (.inl slash)⟩
      · exact ⟨a, rest, rfl, .inr (.inr (.inl bang))⟩
      · exact ⟨a, rest, rfl, .inr (.inr (.inr question))⟩
  · rintro ⟨a, rest, rfl, opens⟩
    simp only [startsMarkup, Bool.and_eq_true, Bool.or_eq_true, is_iff, true_and, or_assoc]
    exact opens

theorem startsCommentEnd_iff {text : Text} :
    startsCommentEnd text = true ↔ ∃ after, text = commentEnd ++ after := by
  constructor
  · intro starts
    match text, starts with
    | a :: b :: c :: rest, starts =>
      simp only [startsCommentEnd, Bool.and_eq_true, is_iff] at starts
      obtain ⟨⟨rfl, rfl⟩, rfl⟩ := starts
      exact ⟨rest, rfl⟩
  · rintro ⟨after, rfl⟩
    rfl

theorem isTagNameUnit_of_isLetter {c : Char} (letter : isLetter c = true) :
    isTagNameUnit c = true := by
  simp only [isLetter, code, Bool.or_eq_true, Bool.and_eq_true, decide_eq_true_eq] at letter
  simp only [isTagNameUnit, isSpace, is_char, code, Bool.and_eq_true, Bool.not_eq_true',
    Bool.or_eq_false_iff, beq_eq_false_iff_ne, Char.reduceToNat]
  omega

/-! ### Complete constructs -/

namespace Construct

def render : Construct Char → Text
  | comment inner => '<' :: '!' :: (inner ++ commentEnd)
  | directive body => '<' :: (body ++ ['>'])
  | tag name attributes => '<' :: (name ++ attributes ++ ['>'])

@[simp] theorem size_render (construct : Construct Char) :
    CodeUnit.size construct.render = construct.size := by
  have marks : CodeUnit.size commentEnd = 3 := by decide
  cases construct with
  | comment inner => simp [render, size, marks, width, Char.utf8Size]; omega
  | directive body => simp [render, size, width, Char.utf8Size]; omega
  | tag name attributes => simp [render, size, width, Char.utf8Size]; omega

/-- The only `-->` of inner text and end together is the end. -/
def EndsFirst (inner : Text) : Prop :=
  ∀ before after, inner ++ commentEnd = before ++ commentEnd ++ after → after = []

/-- Whether a construct that is written before the text `after` is read back. A comment ends at its
first `-->`, which may use the dashes of its start; a directive ends at its first `>`; the name of a
tag is as long as it can be. -/
def Complete (after : Text) : Construct Char → Prop
  | comment inner => ['-', '-'] <+: inner ++ commentEnd ∧ EndsFirst inner
  | directive body =>
    (∃ mark rest, body = mark :: rest ∧ (mark = '/' ∨ mark = '?' ∨ mark = '!')) ∧
      ¬ ['!', '-', '-'] <+: body ∧ '>' ∉ body
  | tag name attributes =>
    IsTagName name ∧ (∀ first ∈ attributes.head?, isTagNameUnit first = false) ∧
      EndsTag attributes '>' after

/-- Markup that starts and is never complete: a comment without an end, or a construct without any
`>`. -/
def Unfinished (text : Text) : Prop :=
  (∃ rest, text = '<' :: '!' :: '-' :: '-' :: rest ∧ ¬ commentEnd <:+: '-' :: '-' :: rest) ∨
    (¬ ['<', '!', '-', '-'] <+: text ∧ '>' ∉ text)

theorem starts_of_complete {construct : Construct Char} {after : Text}
    (complete : construct.Complete after) : startsMarkup (construct.render ++ after) = true := by
  rw [startsMarkup_iff]
  cases construct with
  | comment inner => exact ⟨'!', inner ++ commentEnd ++ after, rfl, by simp⟩
  | directive body =>
    obtain ⟨⟨mark, rest, rfl, opens⟩, -, -⟩ := complete
    exact ⟨mark, rest ++ ['>'] ++ after, rfl, .inr (by rwa [or_comm (a := mark = '!')])⟩
  | tag name attributes =>
    obtain ⟨⟨⟨first, rest, rfl, letter⟩, -⟩, -, -⟩ := complete
    exact ⟨first, rest ++ attributes ++ ['>'] ++ after, by simp [render], .inl letter⟩

/-! ### Comments -/

/-- Nothing behind a comment can end it earlier. -/
theorem endsFirst_iff {inner : Text} (after : Text) :
    EndsFirst inner ↔ FailsWithin startsCommentEnd inner (commentEnd ++ after) := by
  constructor
  · rintro first left right rfl some
    rw [← Bool.not_eq_true, startsCommentEnd_iff]
    rintro ⟨behind, whole⟩
    -- An end that starts in `inner` is over before the end behind `inner` is.
    have marks : commentEnd <+: right ++ commentEnd := by
      have long : commentEnd.length ≤ (right ++ commentEnd).length := by simp
      refine List.prefix_of_prefix_length_le ⟨behind, whole.symm⟩ ⟨after, ?_⟩ long
      rw [List.append_assoc]
    obtain ⟨others, equal⟩ := marks
    have empty := first left others (by rw [List.append_assoc, ← equal, List.append_assoc])
    have lengths := congrArg List.length equal
    simp only [empty, List.length_append, List.length_nil] at lengths
    exact some (List.length_eq_zero_iff.mp (by omega))
  · intro fails before behind whole
    rw [List.append_assoc, List.append_eq_append_iff] at whole
    rcases whole with ⟨others, -, equal⟩ | ⟨right, rfl, equal⟩
    -- The end that is looked at starts behind `inner`, or in it.
    · have lengths := congrArg List.length equal
      simp only [List.length_append] at lengths
      exact List.length_eq_zero_iff.mp (by omega)
    · cases right with
      | nil => simpa using equal
      | cons a right =>
        have earlier : a :: right ++ (commentEnd ++ after) = commentEnd ++ (behind ++ after) := by
          rw [← List.append_assoc, ← equal, List.append_assoc]
        have none := fails before (a :: right) rfl (by simp)
        rw [earlier, startsCommentEnd_iff.mpr ⟨_, rfl⟩] at none
        simp at none

theorem failsWithin_commentEnd_iff {text : Text} :
    FailsWithin startsCommentEnd text [] ↔ ¬ commentEnd <:+: text := by
  constructor
  · rintro fails ⟨left, right, rfl⟩
    have none := fails left (commentEnd ++ right) (List.append_assoc ..) (by simp [commentEnd])
    rw [List.append_nil, startsCommentEnd_iff.mpr ⟨right, rfl⟩] at none
    simp at none
  · rintro missing left right rfl -
    rw [List.append_nil, ← Bool.not_eq_true, startsCommentEnd_iff]
    rintro ⟨after, rfl⟩
    exact missing ⟨left, after, List.append_assoc ..⟩

theorem opensComment_iff {a : Char} {rest : Text} :
    (is '!' a && (rest.take 2).length == 2 && (rest.take 2).all (is '-')) = true ↔
      ['!', '-', '-'] <+: a :: rest := by
  match rest with
  | [] => simp
  | [b] => simp
  | b :: c :: rest =>
    simp only [List.take_succ_cons, List.take_zero, List.length_cons, List.length_nil,
      List.all_cons, List.all_nil, Bool.and_true, Bool.and_eq_true, is_iff, beq_self_eq_true,
      List.cons_prefix_cons, List.nil_prefix, and_true, eq_comm (a := a), eq_comm (a := b),
      eq_comm (a := c)]

/-- A comment is read up to the first place where an end starts. -/
theorem read?_comment (more : Text) :
    read? ('<' :: '!' :: '-' :: '-' :: more) =
      match splitBefore startsCommentEnd ('-' :: '-' :: more) with
      | (_, []) => none
      | (inner, marks) => some (.comment inner, marks.drop 3) := by
  have opens : ['!', '-', '-'] <+: '!' :: '-' :: '-' :: more := ⟨more, rfl⟩
  simp only [read?]
  rw [if_pos (opensComment_iff.mpr opens)]
  cases cut : splitBefore startsCommentEnd ('-' :: '-' :: more) with
  | mk inner marks =>
    obtain ⟨-, -, found⟩ := splitBefore_eq_iff.mp cut
    cases marks with
    | nil => rfl
    | cons mark marks =>
      obtain ⟨after, equal⟩ := startsCommentEnd_iff.mp (found (by simp))
      rw [equal]
      rfl

theorem read?_comment_eq_some_iff {more after : Text} {construct : Construct Char} :
    read? ('<' :: '!' :: '-' :: '-' :: more) = some (construct, after) ↔
      ∃ inner, construct = .comment inner ∧ '-' :: '-' :: more = inner ++ commentEnd ++ after ∧
        EndsFirst inner := by
  rw [read?_comment]
  constructor
  · intro read
    cases cut : splitBefore startsCommentEnd ('-' :: '-' :: more) with
    | mk inner marks =>
      obtain ⟨whole, fails, found⟩ := splitBefore_eq_iff.mp cut
      cases marks with
      | nil => simp [cut] at read
      | cons mark marks =>
        obtain ⟨behind, equal⟩ := startsCommentEnd_iff.mp (found (by simp))
        rw [cut, equal] at read
        cases read
        rw [equal] at whole fails
        refine ⟨inner, rfl, ?_, (endsFirst_iff behind).mpr fails⟩
        rw [whole, List.append_assoc]
        rfl
  · rintro ⟨inner, rfl, whole, first⟩
    have cut : splitBefore startsCommentEnd ('-' :: '-' :: more) =
        (inner, commentEnd ++ after) := by
      refine splitBefore_eq_iff.mpr ⟨by rw [whole, List.append_assoc], ?_, fun _ => ?_⟩
      · exact (endsFirst_iff after).mp first
      · exact startsCommentEnd_iff.mpr ⟨after, rfl⟩
    rw [cut]
    rfl

theorem read?_comment_eq_none_iff {more : Text} :
    read? ('<' :: '!' :: '-' :: '-' :: more) = none ↔ ¬ commentEnd <:+: '-' :: '-' :: more := by
  rw [read?_comment, ← failsWithin_commentEnd_iff]
  constructor
  · intro read
    cases cut : splitBefore startsCommentEnd ('-' :: '-' :: more) with
    | mk inner marks =>
      obtain ⟨whole, fails, -⟩ := splitBefore_eq_iff.mp cut
      cases marks with
      | nil =>
        rw [List.append_nil] at whole
        exact whole ▸ fails
      | cons mark marks => simp [cut] at read
  · intro fails
    rw [splitBefore_eq_iff.mpr ⟨(List.append_nil _).symm, fails, fun some => absurd rfl some⟩]

/-! ### Tags and directives -/

theorem read?_tag {a : Char} (letter : isLetter a = true) (rest : Text) :
    read? ('<' :: a :: rest) =
      (splitTagEnd ((a :: rest).dropWhile isTagNameUnit)).map fun (attributes, after) =>
        (.tag ((a :: rest).takeWhile isTagNameUnit) attributes, after) := by
  have other : is '!' a = false := by
    rw [not_is_iff]
    rintro rfl
    simp [isLetter, code] at letter
  simp only [read?, other, letter, Bool.false_and, Bool.false_eq_true, if_false, if_true]

theorem read?_tag_eq_some_iff {a : Char} (letter : isLetter a = true) {rest after : Text}
    {construct : Construct Char} :
    read? ('<' :: a :: rest) = some (construct, after) ↔
      ∃ name attributes, construct = .tag name attributes ∧
        a :: rest = name ++ attributes ++ '>' :: after ∧
        construct.Complete after := by
  rw [read?_tag letter, Option.map_eq_some_iff]
  constructor
  · rintro ⟨⟨attributes, behind⟩, cut, equal⟩
    obtain ⟨close, whole, ends, complete⟩ := splitTagEnd_eq_some_iff.mp cut
    cases is_iff.mp ends
    cases equal
    refine ⟨_, attributes, rfl, ?_, ⟨⟨a, ?_⟩, all_takeWhile⟩, ?_, complete⟩
    · rw [List.append_assoc, ← whole, List.takeWhile_append_dropWhile]
    · rw [List.takeWhile_cons, if_pos (isTagNameUnit_of_isLetter letter)]
      exact ⟨_, rfl, letter⟩
    · have stops := head_dropWhile isTagNameUnit (a :: rest)
      rw [whole] at stops
      intro first member
      refine stops first ?_
      cases attributes with
      | nil => simp at member
      | cons b attributes => exact member
  · rintro ⟨name, attributes, rfl, whole, ⟨-, named⟩, stops, ends⟩
    have stops : ∀ first ∈ (attributes ++ '>' :: after).head?, isTagNameUnit first = false := by
      intro first member
      cases attributes with
      | nil =>
        cases member
        rfl
      | cons b attributes => exact stops first member
    rw [List.append_assoc] at whole
    rw [whole, takeWhile_run named stops, dropWhile_run named stops]
    refine ⟨(attributes, after), splitTagEnd_eq_some_iff.mpr ⟨'>', rfl, rfl, ends⟩, rfl⟩

theorem read?_directive {mark : Char} {rest : Text} (opens : mark = '/' ∨ mark = '?' ∨ mark = '!')
    (other : ¬ ['!', '-', '-'] <+: mark :: rest) :
    read? ('<' :: mark :: rest) =
      (splitAt? (is '>') (mark :: rest)).map fun (body, after) => (.directive body, after) := by
  have noLetter : isLetter mark = false := by
    rcases opens with rfl | rfl | rfl <;> rfl
  simp only [read?]
  rw [if_neg (mt opensComment_iff.mp other), noLetter, if_neg Bool.false_ne_true]

theorem read?_directive_eq_some_iff {mark : Char} {rest after : Text} {construct : Construct Char}
    (opens : mark = '/' ∨ mark = '?' ∨ mark = '!') (other : ¬ ['!', '-', '-'] <+: mark :: rest) :
    read? ('<' :: mark :: rest) = some (construct, after) ↔
      ∃ body, construct = .directive body ∧ mark :: rest = body ++ '>' :: after ∧
        construct.Complete after := by
  have noEnd : '>' ≠ mark := by
    rcases opens with rfl | rfl | rfl <;> decide
  rw [read?_directive opens other, Option.map_eq_some_iff]
  constructor
  · rintro ⟨⟨body, behind⟩, cut, equal⟩
    obtain ⟨close, whole, ends, first⟩ := splitAt?_eq_some_iff.mp cut
    cases is_iff.mp ends
    cases equal
    refine ⟨body, rfl, whole, ⟨mark, ?_⟩, ?_, ?_⟩
    · cases body with
      | nil =>
        rw [List.nil_append, List.cons.injEq] at whole
        exact absurd whole.1.symm noEnd
      | cons b body =>
        rw [List.cons_append, List.cons.injEq] at whole
        exact ⟨body, by rw [whole.1], opens⟩
    · exact fun comment => other (whole ▸ comment.trans (List.prefix_append body _))
    · exact forall_not_is_iff.mp first
  · rintro ⟨body, rfl, whole, -, -, none⟩
    refine ⟨(body, after), splitAt?_eq_some_iff.mpr ⟨'>', whole, rfl, ?_⟩, rfl⟩
    exact forall_not_is_iff.mpr none

/-! ### The reader in terms of complete constructs -/

/-- What ends before a `>` does not reach over it. -/
theorem prefix_of_prefix_end {start body : Text} (after : Text) (none : '>' ∉ start)
    (starts : start <+: body ++ '>' :: after) : start <+: body := by
  obtain ⟨rest, whole⟩ := starts
  rcases List.append_eq_append_iff.mp whole with ⟨others, rfl, -⟩ | ⟨others, rfl, behind⟩
  · exact List.prefix_append start others
  · cases others with
    | nil => simp
    | cons a others =>
      rw [List.cons_append, List.cons.injEq] at behind
      rw [← behind.1] at none
      simp at none

/-- The kinds of constructs by the text behind their `<`. -/
def OpenedBy (a : Char) (rest : Text) : Construct Char → Prop
  | comment _ => ['!', '-', '-'] <+: a :: rest
  | directive _ => (a = '/' ∨ a = '?' ∨ a = '!') ∧ ¬ ['!', '-', '-'] <+: a :: rest
  | tag _ _ => isLetter a = true

theorem Complete.openedBy {construct : Construct Char} {a : Char} {rest after : Text}
    (complete : construct.Complete after) (whole : '<' :: a :: rest = construct.render ++ after) :
    construct.OpenedBy a rest := by
  cases construct with
  | comment inner =>
    obtain ⟨⟨more, dashes⟩, -⟩ := complete
    simp only [render, List.cons_append, List.cons.injEq, true_and] at whole
    obtain ⟨rfl, rfl⟩ := whole
    exact ⟨more ++ after, by rw [← dashes]; rfl⟩
  | directive body =>
    obtain ⟨⟨mark, others, rfl, opens⟩, noComment, -⟩ := complete
    simp only [render, List.cons_append, List.append_assoc, List.nil_append, List.cons.injEq,
      true_and] at whole
    obtain ⟨rfl, rfl⟩ := whole
    refine ⟨opens, fun comment => noComment ?_⟩
    exact prefix_of_prefix_end after (by decide) comment
  | tag name attributes =>
    obtain ⟨⟨⟨first, others, rfl, letter⟩, -⟩, -, -⟩ := complete
    simp only [render, List.cons_append, List.cons.injEq, true_and] at whole
    obtain ⟨rfl, -⟩ := whole
    exact letter

theorem not_mark_of_isLetter {a : Char} (letter : isLetter a = true) :
    ¬ (a = '/' ∨ a = '?' ∨ a = '!') := by
  rintro (rfl | rfl | rfl) <;> simp [isLetter, code] at letter

/-- Where markup starts, a construct is read exactly if it is complete there. -/
theorem read?_eq_some_iff {text after : Text} {construct : Construct Char}
    (starts : startsMarkup text = true) :
    read? text = some (construct, after) ↔
      text = construct.render ++ after ∧ construct.Complete after := by
  obtain ⟨a, rest, rfl, opens⟩ := startsMarkup_iff.mp starts
  -- The text behind the `<` tells which kind of construct can be complete here.
  by_cases comment : ['!', '-', '-'] <+: a :: rest
  · obtain ⟨more, equal⟩ := comment
    cases equal
    rw [show ['-', '-'].append more = '-' :: '-' :: more from rfl, read?_comment_eq_some_iff]
    constructor
    · rintro ⟨inner, rfl, whole, first⟩
      have long : ['-', '-'].length ≤ (inner ++ commentEnd).length := by simp [commentEnd]
      refine ⟨by rw [whole]; rfl, ?_, first⟩
      exact List.prefix_of_prefix_length_le ⟨more, rfl⟩ ⟨after, whole.symm⟩ long
    · rintro ⟨whole, complete⟩
      have opened := complete.openedBy whole
      cases construct with
      | comment inner =>
        simp only [render, List.cons_append, List.cons.injEq, true_and] at whole
        exact ⟨inner, rfl, whole, complete.2⟩
      | directive body => exact absurd ⟨more, rfl⟩ opened.2
      | tag name attributes => exact absurd (.inr (.inr rfl)) (not_mark_of_isLetter opened)
  · by_cases letter : isLetter a = true
    · rw [read?_tag_eq_some_iff letter]
      constructor
      · rintro ⟨name, attributes, rfl, whole, complete⟩
        exact ⟨by rw [whole]; simp [render], complete⟩
      · rintro ⟨whole, complete⟩
        have opened := complete.openedBy whole
        cases construct with
        | comment inner => exact absurd opened comment
        | directive body => exact absurd opened.1 (not_mark_of_isLetter letter)
        | tag name attributes =>
          refine ⟨name, attributes, rfl, ?_, complete⟩
          simpa [render] using whole
    · have mark : a = '/' ∨ a = '?' ∨ a = '!' := by
        rw [or_comm (a := a = '?')]
        exact opens.resolve_left letter
      rw [read?_directive_eq_some_iff mark comment]
      constructor
      · rintro ⟨body, rfl, whole, complete⟩
        exact ⟨by rw [whole]; simp [render], complete⟩
      · rintro ⟨whole, complete⟩
        have opened := complete.openedBy whole
        cases construct with
        | comment inner => exact absurd opened comment
        | directive body =>
          refine ⟨body, rfl, ?_, complete⟩
          simpa [render] using whole
        | tag name attributes => exact absurd opened letter

/-- Where markup starts, nothing is read exactly if no construct is ever complete there. -/
theorem read?_eq_none_iff {text : Text} (starts : startsMarkup text = true) :
    read? text = none ↔ Unfinished text := by
  obtain ⟨a, rest, rfl, opens⟩ := startsMarkup_iff.mp starts
  by_cases comment : ['!', '-', '-'] <+: a :: rest
  · obtain ⟨more, equal⟩ := comment
    cases equal
    rw [show ['-', '-'].append more = '-' :: '-' :: more from rfl, read?_comment_eq_none_iff]
    constructor
    · exact fun missing => .inl ⟨more, rfl, missing⟩
    · rintro (⟨rest, equal, missing⟩ | ⟨other, -⟩)
      · cases equal
        exact missing
      · exact absurd ⟨more, rfl⟩ other
  · have other : ¬ ['<', '!', '-', '-'] <+: '<' :: a :: rest := by
      rwa [List.prefix_cons_inj]
    have unfinished : Unfinished ('<' :: a :: rest) ↔ '>' ∉ a :: rest := by
      constructor
      · rintro (⟨more, equal, -⟩ | ⟨-, none⟩)
        · exact absurd ⟨more, equal.symm⟩ other
        · exact fun member => none (List.mem_cons_of_mem _ member)
      · intro none
        refine .inr ⟨other, ?_⟩
        simpa using none
    rw [unfinished]
    by_cases letter : isLetter a = true
    · rw [read?_tag letter, Option.map_eq_none_iff, splitTagEnd_eq_none_iff, forall_not_is_iff]
      -- A name holds no `>`, so one that is missing behind the name is missing at all.
      have named : '>' ∉ (a :: rest).takeWhile isTagNameUnit := by
        intro member
        exact absurd (all_takeWhile '>' member) (by decide)
      have parts : '>' ∈ a :: rest ↔ '>' ∈ (a :: rest).takeWhile isTagNameUnit ∨
          '>' ∈ (a :: rest).dropWhile isTagNameUnit := by
        rw [← List.mem_append, List.takeWhile_append_dropWhile]
      rw [parts, or_iff_right named]
    · have mark : a = '/' ∨ a = '?' ∨ a = '!' := by
        rw [or_comm (a := a = '?')]
        exact opens.resolve_left letter
      rw [read?_directive mark comment, Option.map_eq_none_iff, splitAt?_eq_none_iff,
        forall_not_is_iff]

end Construct
end KeyHarvest
