import KeyHarvest.Proofs.Segment

/-!
# Documents are read back

A document that is well formed is read back from the text it is written as: the scan reports its
tags, in order, with the names, attributes, following texts and offsets that they were written with.
The items are the segments of their text (`segmentsWellFormed_map`), and the scan of a text is known
by its segments.
-/
namespace KeyHarvest
open CodeUnit

/-! ### Items as constructs -/

def Item.construct? : Item → Option (Construct Char)
  | .text _ => none
  | .tag name attributes => some (.tag name attributes)
  | .closing body => some (.directive ('/' :: body))
  | .instruction body => some (.directive ('?' :: body))
  | .declaration body => some (.directive ('!' :: body))
  | .comment body => some (.comment ('-' :: '-' :: body))

theorem not_comment_of_take {body : Text} (other : body.take 2 ≠ ['-', '-']) :
    ¬ ['!', '-', '-'] <+: '!' :: body := by
  rw [List.prefix_cons_inj]
  rintro ⟨rest, rfl⟩
  exact other rfl

/-- A well-formed item is a complete construct before any text. -/
theorem Item.complete {item : Item} {construct : Construct Char}
    (equal : item.construct? = some construct) (wellFormed : item.WellFormed) (after : Text) :
    construct.Complete after := by
  cases item with
  | text content => cases equal
  | tag name attributes =>
    cases equal
    obtain ⟨named, stops, balanced, quoted⟩ := wellFormed
    exact ⟨named, stops, .inl ⟨balanced, quoted⟩⟩
  | closing body =>
    cases equal
    exact ⟨⟨'/', body, rfl, by decide⟩, by simp,
      List.not_mem_cons_of_ne_of_not_mem (by decide) wellFormed⟩
  | instruction body =>
    cases equal
    exact ⟨⟨'?', body, rfl, by decide⟩, by simp,
      List.not_mem_cons_of_ne_of_not_mem (by decide) wellFormed⟩
  | declaration body =>
    cases equal
    obtain ⟨unclosed, other⟩ := wellFormed
    exact ⟨⟨'!', body, rfl, by decide⟩, not_comment_of_take other,
      List.not_mem_cons_of_ne_of_not_mem (by decide) unclosed⟩
  | comment body =>
    cases equal
    exact ⟨⟨body ++ commentEnd, rfl⟩, wellFormed⟩

/-! ### Text -/

/-- A plain text stays plain before the end and before a `<`. -/
theorem IsPlain.fails {content rest : Text} (plain : IsPlain content)
    (next : ∀ first ∈ rest.head?, first = '<') : FailsWithin startsMarkup content rest := by
  intro left right equal some
  rw [← Bool.not_eq_true, startsMarkup_iff]
  rintro ⟨a, more, whole, opens⟩
  match right, some with
  | [c], _ =>
    -- The `<` is the last unit of the text, and what follows it is another `<`.
    cases whole
    have second : a = '<' := next a rfl
    subst second
    revert opens
    decide
  | c :: d :: right, _ =>
    -- Both units belong to the text, so the construct would start in the text on its own.
    cases whole
    have starts : startsMarkup ('<' :: a :: right) = true :=
      startsMarkup_iff.mpr ⟨a, right, rfl, opens⟩
    rw [plain left _ equal] at starts
    cases starts

theorem isPlain_iff {text : Text} : IsPlain text ↔ (splitBefore startsMarkup text).2 = [] := by
  constructor
  · intro plain
    rw [splitBefore_eq_iff.mpr ⟨(List.append_nil text).symm, plain.fails (by simp), by simp⟩]
  · rintro none before after rfl
    have cut := splitBefore_eq_iff.mp (Prod.ext rfl none : splitBefore startsMarkup _ = (_, []))
    obtain ⟨whole, fails, -⟩ := cut
    rw [List.append_nil] at whole
    rw [← whole] at fails
    cases after with
    | nil => rfl
    | cons a after =>
      have plain := fails before (a :: after) rfl (by simp)
      rwa [List.append_nil] at plain

theorem endsComment_iff {body : Text} :
    EndsComment body ↔
      (splitBefore startsCommentEnd ('-' :: '-' :: (body ++ commentEnd))).1 =
        '-' :: '-' :: body := by
  have first : EndsComment body ↔ Construct.EndsFirst ('-' :: '-' :: body) := Iff.rfl
  rw [first, Construct.endsFirst_iff [], List.append_nil]
  constructor
  · intro fails
    have cut : splitBefore startsCommentEnd ('-' :: '-' :: body ++ commentEnd) =
        ('-' :: '-' :: body, commentEnd) := splitBefore_eq_iff.mpr ⟨rfl, fails, fun _ => rfl⟩
    exact congrArg Prod.fst cut
  · intro cut
    obtain ⟨whole, fails, -⟩ := splitBefore_eq_iff.mp (Prod.ext cut rfl :
      splitBefore startsCommentEnd ('-' :: '-' :: body ++ commentEnd) = (_, _))
    rwa [← List.append_cancel_left whole] at fails

theorem isTagName_iff {name : Text} :
    IsTagName name ↔ (name.head?.any isLetter = true ∧ name.all isTagNameUnit = true) := by
  cases name <;> simp [IsTagName]

instance (text : Text) : Decidable (IsPlain text) := decidable_of_iff _ isPlain_iff.symm

instance (body : Text) : Decidable (EndsComment body) := decidable_of_iff _ endsComment_iff.symm

instance (name : Text) : Decidable (IsTagName name) := decidable_of_iff _ isTagName_iff.symm

instance : (item : Item) → Decidable item.WellFormed
  | .text content => inferInstanceAs (Decidable (content ≠ [] ∧ IsPlain content))
  | .tag name attributes =>
    inferInstanceAs (Decidable (IsTagName name ∧
      (∀ first ∈ attributes.head?, isTagNameUnit first = false) ∧
        Balanced attributes ∧ NoBareEnd none attributes))
  | .closing body => inferInstanceAs (Decidable ('>' ∉ body))
  | .instruction body => inferInstanceAs (Decidable ('>' ∉ body))
  | .declaration body => inferInstanceAs (Decidable ('>' ∉ body ∧ body.take 2 ≠ ['-', '-']))
  | .comment body => inferInstanceAs (Decidable (EndsComment body))

instance DocumentWellFormed.decidable : (items : List Item) → Decidable (DocumentWellFormed items)
  | [] => isTrue trivial
  | item :: rest =>
    have := DocumentWellFormed.decidable rest
    inferInstanceAs (Decidable (item.WellFormed ∧
      (item.isText = true → ∀ next ∈ rest.head?, next.isText = false) ∧ DocumentWellFormed rest))

/-! ### Documents as splits -/

def Item.segment (item : Item) : Segment :=
  match item.construct? with
  | none => .text item.render
  | some construct => .construct construct

theorem Item.render_segment (item : Item) : item.segment.render = item.render := by
  cases item <;> rfl

theorem Item.isText_segment (item : Item) : item.segment.isText = item.isText := by
  cases item <;> rfl

theorem renderSegments_map (items : List Item) :
    renderSegments (items.map Item.segment) = renderDocument items := by
  induction items with
  | nil => rfl
  | cons item items ih =>
    rw [List.map_cons, renderSegments_cons, renderDocument_cons, ih, Item.render_segment]

/-- Behind a text the whole ends or goes on with a `<`. -/
theorem head_renderSegments {segments : List Segment} (wellFormed : SegmentsWellFormed segments)
    (markup : ∀ next ∈ segments.head?, next.isText = false) :
    ∀ first ∈ (renderSegments segments).head?, first = '<' := by
  cases segments with
  | nil => simp
  | cons segment others =>
    have starts : startsMarkup (renderSegments (segment :: others)) = true := by
      cases segment with
      | text content => cases markup _ rfl
      | construct written => exact Construct.starts_of_complete wellFormed.1
      | rest remainder =>
        obtain ⟨⟨starts, -, rfl⟩, -⟩ := wellFormed
        rwa [renderSegments_cons, renderSegments_nil, List.append_nil]
    obtain ⟨a, more, whole, -⟩ := startsMarkup_iff.mp starts
    rw [whole]
    rintro first ⟨⟩
    rfl

/-- The items of a well-formed document are segments in front of any segments; a text at the end of
the document must be at the end of the whole. -/
theorem segmentsWellFormed_append {items : List Item} {others : List Segment}
    (wellFormed : DocumentWellFormed items) (later : SegmentsWellFormed others)
    (ends : ∀ last ∈ items.getLast?, last.isText = true → others = []) :
    SegmentsWellFormed (items.map Item.segment ++ others) := by
  induction items with
  | nil => exact later
  | cons item items ih =>
    obtain ⟨first, next, wellFormed⟩ := wellFormed
    have behind : ∀ last ∈ items.getLast?, last.isText = true → others = [] := by
      intro last member
      apply ends last
      rw [List.getLast?_cons, Option.mem_def.mp member]
      rfl
    have whole := ih wellFormed behind
    refine ⟨?_, whole⟩
    cases equal : item.construct? with
    | some construct =>
      have complete := Item.complete equal first
        (renderSegments (items.map Item.segment ++ others))
      rw [Item.segment, equal]
      exact complete
    | none =>
      -- Only a text is no construct.
      cases item <;> cases equal
      have markup : ∀ next ∈ (items.map Item.segment ++ others).head?, next.isText = false := by
        cases items with
        | nil =>
          rw [ends _ rfl rfl]
          simp
        | cons item items =>
          rintro segment ⟨⟩
          rw [Item.isText_segment]
          exact next rfl item rfl
      exact ⟨first.1, first.2.fails (head_renderSegments whole markup), markup⟩

theorem segmentsWellFormed_map {items : List Item} (wellFormed : DocumentWellFormed items) :
    SegmentsWellFormed (items.map Item.segment) := by
  have none : SegmentsWellFormed [] := trivial
  have whole := segmentsWellFormed_append wellFormed none fun _ _ _ => rfl
  rwa [List.append_nil] at whole

theorem leadingText_map (items : List Item) :
    leadingText (items.map Item.segment) = startingText items := by
  match items with
  | [] => rfl
  | item :: items => cases item <;> rfl

theorem segmentTags_map (items : List Item) (offset : Nat) :
    segmentTags offset (items.map Item.segment) = documentTags offset items := by
  induction items generalizing offset with
  | nil => rfl
  | cons item items ih =>
    have others := ih (offset + size item.render)
    cases item with
    | tag name attributes =>
      rw [documentTags, ← others, ← leadingText_map]
      rfl
    | _ => exact others

theorem Scanner.tags_document {items : List Item} (wellFormed : DocumentWellFormed items)
    (offset : Nat) : tags ⟨renderDocument items, offset⟩ = documentTags offset items := by
  rw [← renderSegments_map, tags_segments (segmentsWellFormed_map wellFormed), segmentTags_map]

/-- Reading back a well-formed document gives exactly its tags: each with its own name and attribute
text, the text item right behind it, and the number of bytes that were written before it. -/
theorem tags_renderDocument (items : List Item) (wellFormed : DocumentWellFormed items) :
    tags (renderDocument items) = documentTags 0 items :=
  Scanner.tags_document wellFormed 0

/-- A document with a `>` in quotes, a text that ends in `<`, and markup in a comment. -/
def trickyDocument : List Item :=
  [.declaration "DOCTYPE html".toList, .comment " <p data-i18n=\"old\"> -".toList,
    .tag "p".toList " title='a > \"b'".toList, .text "é < 2 <".toList,
    .tag "x-icon".toList "/".toList, .closing "p".toList, .tag "b".toList [], .text ">".toList]

theorem tags_trickyDocument :
    DocumentWellFormed trickyDocument ∧
      tags (renderDocument trickyDocument) =
        [⟨"p".toList, " title='a > \"b'".toList, "é < 2 <".toList, 44⟩,
          ⟨"x-icon".toList, "/".toList, [], 70⟩, ⟨"b".toList, [], ">".toList, 83⟩] :=
  ⟨by decide, (tags_renderDocument trickyDocument (by decide)).trans (by decide)⟩

end KeyHarvest
