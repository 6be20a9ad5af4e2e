import KeyHarvest.Keys.Undecoded
import KeyHarvest.Proofs.ByteCuts
import KeyHarvest.Proofs.Scan

/-!
# The scan of undecoded bytes

`Decodes` says that a scanner of some content and a scanner of its text are at the same place. A
turn of both reports the same and keeps them at the same place (`Decodes.turn`), so the two scans
report the same tags (`tags_decodeLossy`).
-/
namespace KeyHarvest
open CodeUnit

/-- The turn that reads a construct at an offset. -/
def Construct.turn {α : Type} [CodeUnit α] (offset : Nat) (after : List α)
    (construct : Construct α) : Turn α :=
  match construct with
  | .tag name attributes =>
    .found ⟨name, attributes, (splitBefore startsMarkup after).1, offset⟩
      ⟨after, offset + construct.size⟩
  | _ => .skipped ⟨after, offset + construct.size⟩

namespace Scanner

variable {α : Type} [CodeUnit α] {scanner : Scanner α} {plain markup after : List α}

theorem turn_of_none (cut : splitBefore startsMarkup scanner.rest = (plain, markup))
    (read : Construct.read? markup = none) : scanner.turn = .finished := by
  rw [turn, cut]
  dsimp only
  rw [read]

theorem turn_of_some {construct : Construct α}
    (cut : splitBefore startsMarkup scanner.rest = (plain, markup))
    (read : Construct.read? markup = some (construct, after)) :
    scanner.turn = construct.turn (scanner.offset + size plain) after := by
  rw [turn, cut]
  dsimp only
  rw [read]
  cases construct <;> rfl

end Scanner

/-- A scanner of some content and a scanner of its text are at the same place: what is left of the
one is decoded what is left of the other, and the offsets count the bytes before. -/
structure Decodes (content : List UInt8) (bytes : Scanner UInt8) (text : Scanner Char) : Prop where
  rest : content.drop bytes.offset = bytes.rest
  decoded : text.rest = decodeLossy bytes.rest
  offset : size (decodeLossy content) = text.offset + size text.rest

/-- Turns that report the same. -/
inductive SameTurn (content : List UInt8) : Turn UInt8 → Turn Char → Prop where
  | finished : SameTurn content .finished .finished
  | skipped {bytes : Scanner UInt8} {text : Scanner Char} (decodes : Decodes content bytes text) :
    SameTurn content (.skipped bytes) (.skipped text)
  | found {tag : Tag UInt8} {bytes : Scanner UInt8} {text : Scanner Char}
    (starts : startsMarkup (content.drop tag.offset) = true)
    (decodes : Decodes content bytes text) :
    SameTurn content (.found tag bytes) (.found (tag.decode content) text)

namespace Decodes

variable {content : List UInt8} {bytes : Scanner UInt8} {text : Scanner Char}

theorem start (content : List UInt8) :
    Decodes content (.start content) (.start (decodeLossy content)) where
  rest := rfl
  decoded := rfl
  offset := (Nat.zero_add _).symm

/-- Where markup starts in the content, decoding can be cut. -/
theorem size_take (decodes : Decodes content bytes text) {plain markup : List UInt8}
    (whole : bytes.rest = plain ++ markup) (starts : startsMarkup markup = true) :
    size (decodeLossy (content.take (bytes.offset + plain.length))) =
      text.offset + size (decodeLossy plain) := by
  rw [startsMarkup_eq] at starts
  obtain ⟨first, others, rfl, -, -, small, -⟩ := exists_cons_of_opensWith starts
  -- The text of the content is cut twice at the same `<`: once as the text of what the scanner has
  -- in front of it, and once as the text of the bytes before and behind.
  have behind : content.drop (bytes.offset + plain.length) = first :: others := by
    rw [← List.drop_drop, decodes.rest, whole]
    exact List.drop_left
  have total := decodes.offset
  rw [decodes.decoded, whole, decodeLossy_append_cons plain small,
    ← List.take_append_drop (bytes.offset + plain.length) content, behind,
    decodeLossy_append_cons _ small, size_append, size_append] at total
  omega

/-- What both scanners pass over counts the same for their offsets as for what they leave. -/
theorem after_turn (decodes : Decodes content bytes text) {plain markup after : List UInt8}
    {construct : Construct UInt8} {after' : Scanner Char} (whole : bytes.rest = plain ++ markup)
    (read : Construct.read? markup = some (construct, after))
    (went : text.turn = .skipped after' ∨ ∃ tag, text.turn = .found tag after')
    (decoded : after'.rest = decodeLossy after) :
    Decodes content ⟨after, bytes.offset + size plain + construct.size⟩ after' where
  rest := by
    rw [Nat.add_assoc, ← List.drop_drop, decodes.rest, whole, size_bytes, ← List.drop_drop,
      List.drop_left]
    exact Construct.drop_of_read? read
  decoded := decoded
  offset := by
    -- The text is passed over by a turn of its own, which says how much of it that is.
    obtain ⟨taken, whole, offset⟩ := Scanner.exists_of_turn went
    have total := decodes.offset
    rw [whole, size_append] at total
    omega

/-- A turn of both scanners reports the same, and leaves them at the same place. -/
theorem turn (decodes : Decodes content bytes text) :
    SameTurn content bytes.turn text.turn := by
  cases cut : splitBefore startsMarkup bytes.rest with
  | mk plain markup =>
    obtain ⟨whole, -, found⟩ := splitBefore_eq_iff.mp cut
    have cut' : splitBefore startsMarkup text.rest = (decodeLossy plain, decodeLossy markup) := by
      rw [decodes.decoded, splitBefore_startsMarkup_decodeLossy, cut]
      rfl
    by_cases ended : markup = []
    · -- Without markup neither scan goes on.
      subst ended
      rw [Scanner.turn, Scanner.turn, cut, cut']
      exact .finished
    · have starts := found ended
      have read' := Construct.read?_decodeLossy starts
      cases read : Construct.read? markup with
      | none =>
        rw [read] at read'
        rw [Scanner.turn_of_none cut read, Scanner.turn_of_none cut' read']
        exact .finished
      | some reading =>
        obtain ⟨construct, after⟩ := reading
        rw [read, Option.map_some, Construct.decodeReading] at read'
        have went := Scanner.turn_of_some cut' read'
        rw [Scanner.turn_of_some cut read]
        cases construct with
        | comment inner =>
          rw [went]
          exact .skipped (decodes.after_turn whole read (.inl went) rfl)
        | directive body =>
          rw [went]
          exact .skipped (decodes.after_turn whole read (.inl went) rfl)
        | tag name attributes =>
          -- The text behind the tag is cut at the next markup, on both sides.
          have next := decodes.after_turn whole read (.inr ⟨_, went⟩) rfl
          have following := congrArg Prod.fst (splitBefore_startsMarkup_decodeLossy after)
          have place := decodes.size_take whole starts
          rw [← size_bytes] at place
          rw [← place] at went next
          rw [went, Construct.decode, Construct.turn, Construct.turn, following]
          refine .found ?_ next
          rw [size_bytes, ← List.drop_drop, decodes.rest, whole, List.drop_left]
          exact starts

end Decodes

/-! ### Tags -/

/-- Scanners at the same place report the same tags from there on. -/
theorem Decodes.tags {content : List UInt8} {bytes : Scanner UInt8} {text : Scanner Char}
    (decodes : Decodes content bytes text) :
    text.tags = bytes.tags.map (Tag.decode content) ∧
      ∀ tag ∈ bytes.tags, startsMarkup (content.drop tag.offset) = true := by
  -- The induction is on what the scanner of the bytes has left; the step is a turn of both.
  induction length : bytes.rest.length using Nat.strongRecOn generalizing bytes text with
  | ind bound ih =>
    subst length
    have same := decodes.turn
    generalize went : bytes.turn = turn, went' : text.turn = turn' at same
    cases same with
    | finished =>
      rw [Scanner.tags_of_finished went, Scanner.tags_of_finished went']
      exact ⟨rfl, by simp⟩
    | skipped decodes =>
      rw [Scanner.tags_of_skipped went, Scanner.tags_of_skipped went']
      exact ih _ (Scanner.length_rest_lt_of_skipped went) decodes rfl
    | found starts decodes =>
      obtain ⟨others, start⟩ := ih _ (Scanner.length_rest_lt_of_found went) decodes rfl
      rw [Scanner.tags_of_found went, Scanner.tags_of_found went', others]
      exact ⟨rfl, List.forall_mem_cons.mpr ⟨starts, start⟩⟩

/-- Decoding does not disturb a scan: its tags are those of the undecoded bytes, decoded piece by
piece. -/
theorem tags_decodeLossy (content : List UInt8) :
    tags (decodeLossy content) = (tags content).map (Tag.decode content) :=
  (Decodes.start content).tags.1

theorem startsMarkup_of_mem_tags {content : List UInt8} {tag : Tag UInt8}
    (member : tag ∈ tags content) : startsMarkup (content.drop tag.offset) = true :=
  (Decodes.start content).tags.2 tag member

end KeyHarvest
