import KeyHarvest.Proofs.Scan

/-!
# Segments of a text

Every text splits into plain texts, complete constructs and at most one rest, which starts markup
that is never complete. The scan reports exactly the tags among the segments of such a split:
`Scanner.tags_segments` for any split, `exists_segments` for the split that every text has.
-/
namespace KeyHarvest
open CodeUnit

inductive Segment where
  | text (content : Text)
  | construct (written : Construct Char)
  /-- Markup that is never complete. -/
  | rest (remainder : Text)
deriving DecidableEq, Repr

def Segment.render : Segment → Text
  | .text content => content
  | .construct written => written.render
  | .rest remainder => remainder

def Segment.isText : Segment → Bool
  | .text _ => true
  | _ => false

def renderSegments (segments : List Segment) : Text := segments.flatMap Segment.render

@[simp] theorem renderSegments_nil : renderSegments [] = [] := rfl

@[simp] theorem renderSegments_cons (segment : Segment) (others : List Segment) :
    renderSegments (segment :: others) = segment.render ++ renderSegments others := rfl

/-- What a segment is, given the segments behind it. No construct starts in a text, also not by what
follows it; a text is as long as it can be; nothing follows a rest. -/
def Segment.WellFormed (others : List Segment) : Segment → Prop
  | .text content =>
    content ≠ [] ∧ FailsWithin startsMarkup content (renderSegments others) ∧
      ∀ next ∈ others.head?, next.isText = false
  | .construct written => written.Complete (renderSegments others)
  | .rest remainder =>
    startsMarkup remainder = true ∧ Construct.Unfinished remainder ∧ others = []

def SegmentsWellFormed : List Segment → Prop
  | [] => True
  | segment :: others => segment.WellFormed others ∧ SegmentsWellFormed others

def leadingText : List Segment → Text
  | .text content :: _ => content
  | _ => []

/-- The tags among the segments, the first segment starting at an offset. -/
def segmentTags (offset : Nat) : List Segment → List (Tag Char)
  | [] => []
  | segment :: others =>
    let later := segmentTags (offset + size segment.render) others
    match segment with
    | .construct (.tag name attributes) => ⟨name, attributes, leadingText others, offset⟩ :: later
    | _ => later

/-! ### The scan of a split -/

theorem leadingText_of_markup {segments : List Segment}
    (markup : ∀ next ∈ segments.head?, next.isText = false) : leadingText segments = [] := by
  cases segments with
  | nil => rfl
  | cons segment others =>
    have other := markup segment rfl
    cases segment with
    | text content => cases other
    | _ => rfl

/-- The text before the first construct is the text at the start of the split. -/
theorem splitBefore_renderSegments {segments : List Segment}
    (wellFormed : SegmentsWellFormed segments) :
    (splitBefore startsMarkup (renderSegments segments)).1 = leadingText segments := by
  induction segments with
  | nil => rfl
  | cons segment others ih =>
    obtain ⟨first, later⟩ := wellFormed
    cases segment with
    | text content =>
      -- Another text cannot follow, so markup or the end stands behind this one.
      obtain ⟨-, plain, next⟩ := first
      rw [renderSegments_cons, Segment.render, splitBefore_of_fails plain, ih later,
        leadingText_of_markup next, List.append_nil]
      rfl
    | construct written =>
      have starts := Construct.starts_of_complete first
      exact congrArg Prod.fst (splitBefore_of_test starts)
    | rest remainder =>
      obtain ⟨starts, -, rfl⟩ := first
      rw [renderSegments_cons, renderSegments_nil, List.append_nil, Segment.render,
        splitBefore_of_test starts]
      rfl

theorem segmentTags_construct {written : Construct Char} {others : List Segment}
    (later : SegmentsWellFormed others) (offset : Nat) :
    segmentTags offset (.construct written :: others) =
      written.tags offset (renderSegments others) ++
        segmentTags (offset + written.size) others := by
  cases written with
  | tag name attributes =>
    rw [Construct.tags, splitBefore_renderSegments later, ← Construct.size_render]
    rfl
  | _ =>
    rw [← Construct.size_render]
    rfl

/-- A scan of a split reports the tags among its segments. -/
theorem Scanner.tags_segments {segments : List Segment} (wellFormed : SegmentsWellFormed segments)
    (offset : Nat) : tags ⟨renderSegments segments, offset⟩ = segmentTags offset segments := by
  induction segments generalizing offset with
  | nil => exact tags_nil offset
  | cons segment others ih =>
    obtain ⟨first, later⟩ := wellFormed
    cases segment with
    | text content => exact (tags_text first.2.1 offset).trans (ih later _)
    | construct written =>
      rw [renderSegments_cons, Segment.render, tags_construct first, ih later,
        segmentTags_construct later]
    | rest remainder =>
      obtain ⟨starts, unfinished, rfl⟩ := first
      rw [renderSegments_cons, renderSegments_nil, List.append_nil, Segment.render,
        tags_unfinished starts unfinished]
      rfl

/-! ### The split of a text -/

theorem exists_segments_of_text (content : Text) (segments : List Segment)
    (plain : FailsWithin startsMarkup content (renderSegments segments))
    (next : ∀ next ∈ segments.head?, next.isText = false)
    (wellFormed : SegmentsWellFormed segments) :
    ∃ whole, renderSegments whole = content ++ renderSegments segments ∧
      SegmentsWellFormed whole := by
  by_cases empty : content = []
  · exact ⟨segments, by rw [empty, List.nil_append], wellFormed⟩
  · exact ⟨.text content :: segments, rfl, ⟨empty, plain, next⟩, wellFormed⟩

/-- Every text has a split: what one turn of the scan leaves is shorter, and has one. -/
theorem exists_segments (text : Text) :
    ∃ segments, renderSegments segments = text ∧ SegmentsWellFormed segments := by
  induction length : text.length using Nat.strongRecOn generalizing text with
  | ind bound ih =>
    subst length
    have cut : splitBefore startsMarkup text =
        ((splitBefore startsMarkup text).1, (splitBefore startsMarkup text).2) := rfl
    generalize (splitBefore startsMarkup text).1 = content at cut
    generalize (splitBefore startsMarkup text).2 = markup at cut
    obtain ⟨rfl, plain, found⟩ := splitBefore_eq_iff.mp cut
    by_cases ended : markup = []
    · -- No construct starts any more: the text is plain.
      subst ended
      exact exists_segments_of_text content [] plain (by simp) trivial
    · have starts := found ended
      cases read : Construct.read? markup with
      | none =>
        -- A construct starts and is never complete: it is the rest.
        have unfinished := (Construct.read?_eq_none_iff starts).mp read
        have whole : renderSegments [.rest markup] = markup := List.append_nil markup
        rw [← whole] at plain ⊢
        exact exists_segments_of_text content [.rest markup] plain (by simp [Segment.isText])
          ⟨⟨starts, unfinished, rfl⟩, trivial⟩
      | some reading =>
        obtain ⟨written, after⟩ := reading
        obtain ⟨whole, complete⟩ := (Construct.read?_eq_some_iff starts).mp read
        have shorter : after.length < (content ++ markup).length := by
          have := Construct.read?_shorter read
          simp only [List.length_append]
          omega
        -- The text behind the construct is shorter, so it has a split.
        obtain ⟨others, rfl, later⟩ := ih after.length shorter after rfl
        have whole : renderSegments (.construct written :: others) = markup := whole.symm
        rw [← whole] at plain ⊢
        exact exists_segments_of_text content (.construct written :: others) plain
          (by simp [Segment.isText]) ⟨complete, later⟩

/-! ### The place of a tag -/

/-- A tag of a well-formed split is one of its constructs. -/
theorem exists_of_mem_segmentTags {segments : List Segment}
    (wellFormed : SegmentsWellFormed segments) {offset : Nat} {tag : Tag Char}
    (member : tag ∈ segmentTags offset segments) :
    ∃ before after, renderSegments segments =
        before ++ ((Construct.tag tag.name tag.attributes).render ++ after) ∧
      offset + size before = tag.offset ∧
      (Construct.tag tag.name tag.attributes).Complete after ∧
      tag.followingText = (splitBefore startsMarkup after).1 := by
  induction segments generalizing offset with
  | nil => cases member
  | cons segment others ih =>
    obtain ⟨first, later⟩ := wellFormed
    -- A tag among the later segments stands behind the first one.
    have behind : tag ∈ segmentTags (offset + size segment.render) others → _ := ih later
    have moved : tag ∈ segmentTags (offset + size segment.render) others →
        ∃ before after, renderSegments (segment :: others) =
            before ++ ((Construct.tag tag.name tag.attributes).render ++ after) ∧
          offset + size before = tag.offset ∧
          (Construct.tag tag.name tag.attributes).Complete after ∧
          tag.followingText = (splitBefore startsMarkup after).1 := by
      intro member
      obtain ⟨before, after, whole, place, complete⟩ := behind member
      refine ⟨segment.render ++ before, after, ?_, ?_, complete⟩
      · rw [renderSegments_cons, whole, List.append_assoc]
      · rw [size_append, ← place, Nat.add_assoc]
    cases segment with
    | text content => exact moved member
    | rest remainder => exact moved member
    | construct written =>
      cases written with
      | comment inner => exact moved member
      | directive body => exact moved member
      | tag name attributes =>
        rcases List.mem_cons.mp member with rfl | member
        · exact ⟨[], renderSegments others, rfl, rfl, first,
            (splitBefore_renderSegments later).symm⟩
        · exact moved member

/-- Every tag that is reported stands in the text where its offset says. -/
theorem exists_of_mem_tags {text : Text} {tag : Tag Char} (member : tag ∈ tags text) :
    ∃ before after, text = before ++ ((Construct.tag tag.name tag.attributes).render ++ after) ∧
      size before = tag.offset ∧ (Construct.tag tag.name tag.attributes).Complete after ∧
      tag.followingText = (splitBefore startsMarkup after).1 := by
  obtain ⟨segments, rfl, wellFormed⟩ := exists_segments text
  rw [tags, Scanner.start, Scanner.tags_segments wellFormed] at member
  simpa only [Nat.zero_add] using exists_of_mem_segmentTags wellFormed member

/-! ### No tag is reported twice -/

/-- The number of bytes before what follows a tag and its following text. -/
def Tag.ending (tag : Tag Char) : Nat :=
  tag.offset + (Construct.tag tag.name tag.attributes).size + size tag.followingText

theorem offset_le_of_mem_segmentTags {segments : List Segment} {offset : Nat} {tag : Tag Char}
    (member : tag ∈ segmentTags offset segments) :
    offset + size (leadingText segments) ≤ tag.offset := by
  induction segments generalizing offset with
  | nil => cases member
  | cons segment others ih =>
    cases segment with
    | text content =>
      have later := ih member
      simp only [Segment.render, leadingText] at later ⊢
      omega
    | rest remainder =>
      have later := ih member
      simp only [leadingText, size_nil]
      omega
    | construct written =>
      simp only [leadingText, size_nil, Nat.add_zero]
      cases written with
      | tag name attributes =>
        rcases List.mem_cons.mp member with rfl | member
        · exact Nat.le_refl _
        · have later := ih member
          omega
      | _ =>
        have later := ih member
        omega

/-- The tags stand apart: each one starts behind the one before it and its following text. -/
theorem segmentTags_apart (segments : List Segment) (offset : Nat) :
    (segmentTags offset segments).Pairwise fun left right => left.ending ≤ right.offset := by
  induction segments generalizing offset with
  | nil => exact .nil
  | cons segment others ih =>
    cases segment with
    | text content => exact ih _
    | rest remainder => exact ih _
    | construct written =>
      cases written with
      | tag name attributes =>
        -- The tags behind this one start behind its following text.
        refine .cons ?_ (ih _)
        intro later member
        have behind := offset_le_of_mem_segmentTags member
        simpa only [Tag.ending, Segment.render, Construct.size_render] using behind
      | _ => exact ih _

/-- Any text whatever splits into plain texts, complete constructs and at most one rest that is
never complete. The scan reports exactly the tags of the split, each with the whole text behind it,
and no two of them overlap. -/
theorem tags_of_exists_segments (text : Text) :
    ∃ segments, renderSegments segments = text ∧ SegmentsWellFormed segments ∧
      tags text = segmentTags 0 segments ∧
      (tags text).Pairwise fun left right => left.ending ≤ right.offset := by
  obtain ⟨segments, whole, wellFormed⟩ := exists_segments text
  have reported : tags text = segmentTags 0 segments := by
    rw [← whole]
    exact Scanner.tags_segments wellFormed 0
  refine ⟨segments, whole, wellFormed, reported, ?_⟩
  rw [reported]
  exact segmentTags_apart segments 0

end KeyHarvest
