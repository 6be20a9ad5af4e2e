import KeyHarvest.Proofs.RoundTrip
import KeyHarvest.Proofs.Tokenizer

/-!
# Quotes of values and quotes of tags

The end of a tag is found by counting every quote, while only a quote behind an `=` starts a value.
The two agree on every `>` of a tag unless a stray quote is open at a `>` and closed before a later
one: then the tag runs past its end. `EndsTag.endsInValues_iff` gives this condition exactly. The
apostrophe of a bare attribute is such a quote when another one follows anywhere in the text.
-/
namespace KeyHarvest
open CodeUnit

/-! ### Units in quoted values -/

/-- What stands between `before` and `after` is part of a quoted value: a quote opens it in `before`
and the same quote closes it in `after`. -/
def InQuotedValue (before after : Text) : Prop :=
  ∃ quote name seen, Reading.after before = .inQuotes quote name seen ∧ quote ∈ after

/-- What the text before a unit looks like, given the reading of it. -/
def Reading.Explains (before : Text) : Reading Char → Prop
  | .afterEquals _ =>
    ∃ left space, before = left ++ '=' :: space ∧ ∀ c ∈ space, isSpace c = true
  | .inQuotes quote _ seen =>
    ∃ left space, before = left ++ '=' :: (space ++ quote :: seen) ∧
      (∀ c ∈ space, isSpace c = true) ∧ isQuote quote = true ∧ quote ∉ seen
  | _ => True

theorem Reading.explains_start (before : Text) (c : Char) : (Reading.start c).Explains before := by
  rw [Reading.start]
  split <;> trivial

theorem Reading.explains_equals {before : Text} {c : Char} (equals : is '=' c = true)
    (name : Text) : (Reading.afterEquals name).Explains (before ++ [c]) := by
  rw [is_iff] at equals
  subst equals
  exact ⟨before, [], rfl, by simp⟩

/-- One more unit is explained by the reading after it. -/
theorem Reading.Explains.step {before : Text} {reading : Reading Char}
    (explains : reading.Explains before) (c : Char) :
    (reading.step c).Explains (before ++ [c]) := by
  cases reading with
  | between => exact explains_start _ c
  | inName seen =>
    simp only [Reading.step]
    split
    · trivial
    · split
      · trivial
      · split
        next equals => exact explains_equals equals seen
        · trivial
  | afterName name =>
    simp only [Reading.step]
    split
    · trivial
    · split
      next equals => exact explains_equals equals name
      · exact explains_start _ c
  | afterEquals name =>
    obtain ⟨left, space, rfl, spaces⟩ := explains
    simp only [Reading.step]
    split
    next more =>
      refine ⟨left, space ++ [c], by simp, ?_⟩
      intro d member
      rcases List.mem_append.mp member with member | member
      · exact spaces d member
      · rwa [List.mem_singleton.mp member]
    · -- Either quote opens a value of which nothing is read yet.
      have opened : ∀ quote, is quote c = true → isQuote quote = true →
          (Reading.inQuotes quote name []).Explains (left ++ '=' :: space ++ [c]) := by
        intro quote same delimits
        rw [is_iff] at same
        subst same
        exact ⟨left, space, by simp, spaces, delimits, by simp⟩
      split
      next double => exact opened '"' double rfl
      · split
        next single => exact opened '\'' single rfl
        · trivial
  | inQuotes quote name seen =>
    obtain ⟨left, space, rfl, spaces, delimits, inside⟩ := explains
    simp only [Reading.step]
    split
    · trivial
    next goesOn =>
      -- The value has grown by a unit that is not its quote.
      rw [is_iff] at goesOn
      refine ⟨left, space, by simp, spaces, delimits, ?_⟩
      intro member
      rcases List.mem_append.mp member with member | member
      · exact inside member
      · exact goesOn (List.mem_singleton.mp member).symm
  | inBare name value =>
    simp only [Reading.step]
    split <;> trivial

theorem Reading.Explains.run {before : Text} {reading : Reading Char}
    (explains : reading.Explains before) (rest : Text) :
    (rest.foldl Reading.step reading).Explains (before ++ rest) := by
  induction rest generalizing before reading with
  | nil => rwa [List.append_nil]
  | cons c rest ih =>
    rw [List.append_cons]
    exact ih (explains.step c)

theorem Reading.explains_after (before : Text) : (Reading.after before).Explains before :=
  @Reading.Explains.run [] .between trivial before

/-- A quoted value starts with a quote that directly follows an `=` and space, ends before the next
quote of that kind, and is the value of an attribute. -/
theorem InQuotedValue.exists_attribute {before after : Text} (inside : InQuotedValue before after) :
    ∃ left space quote seen rest more name,
      before = left ++ '=' :: (space ++ quote :: seen) ∧ after = rest ++ quote :: more ∧
      (∀ c ∈ space, isSpace c = true) ∧ isQuote quote = true ∧ quote ∉ seen ++ rest ∧
      ⟨name, some (seen ++ rest)⟩ ∈ attributes (before ++ after) := by
  obtain ⟨quote, name, seen, reading, closed⟩ := inside
  have explains := Reading.explains_after before
  rw [reading] at explains
  obtain ⟨left, space, whole, spaces, delimits, unclosed⟩ := explains
  obtain ⟨rest, more, rfl, first⟩ := List.eq_append_cons_of_mem closed
  refine ⟨left, space, quote, seen, rest, more, name, whole, rfl, spaces, delimits, ?_, ?_⟩
  · rw [List.mem_append]
    exact not_or.mpr ⟨unclosed, first⟩
  · -- The run up to here gives earlier attributes, and the run from here gives this one first.
    obtain ⟨earlier, run⟩ := Reading.run_append .between before (rest ++ quote :: more)
    have value : (rest ++ quote :: more).takeWhile (!is quote ·) = rest := by
      have passed := forall_not_is_iff.mpr first
      exact takeWhile_run (by simpa using passed) (by simp)
    rw [Reading.attributes_eq_run, run]
    rw [Reading.after] at reading
    rw [reading, Reading.run_quoted, value]
    simp

/-! ### Tags -/

/-- Every `>` of the text stands in a quoted value. -/
def EndsInValues (attributes : Text) : Prop :=
  ∀ before after, attributes = before ++ '>' :: after → InQuotedValue before after

/-- A quote that is open at some `>` outside the quoted values is closed before a later one. -/
def StrayQuoteCloses (text : Text) : Prop :=
  ∃ own more rest, text = own ++ '>' :: (more ++ '>' :: rest) ∧ ¬ InQuotedValue own more ∧
    NoBareEnd none (own ++ '>' :: more) ∧ Balanced (own ++ '>' :: more)

theorem EndsTag.endsInValues_iff {attributes after : Text} (ends : EndsTag attributes '>' after) :
    EndsInValues attributes ↔ ¬ StrayQuoteCloses (attributes ++ '>' :: after) := by
  constructor
  · rintro inside ⟨own, more, rest, whole, outside, quoted, balanced⟩
    -- The stray quote is closed, so the tag ends behind it: a text has one cut only.
    have cut : splitTagEnd (attributes ++ '>' :: after) = some (attributes, after) :=
      splitTagEnd_eq_some_iff.mpr ⟨'>', rfl, rfl, ends⟩
    have later : splitTagEnd (attributes ++ '>' :: after) = some (own ++ '>' :: more, rest) :=
      splitTagEnd_eq_some_iff.mpr ⟨'>', by simp [whole], rfl, .inl ⟨balanced, quoted⟩⟩
    rw [cut, Option.some.injEq, Prod.mk.injEq] at later
    exact outside (inside own more later.1)
  · rintro none own more rfl
    -- A tag that ends at the first `>` of all holds none.
    rcases ends with ⟨balanced, quoted⟩ | ⟨first, -⟩
    · refine Classical.byContradiction fun outside => ?_
      exact none ⟨own, more, after, by simp, outside, quoted, balanced⟩
    · have bare := first '>' (by simp)
      simp at bare

/-- Every `>` of a tag stands in a quoted value, unless the text after the tag's name has a stray
quote that closes. -/
theorem endsInValues_iff_of_mem_tags {text : Text} {tag : Tag Char} (member : tag ∈ tags text) :
    ∃ before after, text = before ++ '<' :: (tag.name ++ tag.attributes ++ '>' :: after) ∧
      size before = tag.offset ∧
      (EndsInValues tag.attributes ↔ ¬ StrayQuoteCloses (tag.attributes ++ '>' :: after)) := by
  obtain ⟨before, after, whole, offset, complete, -⟩ := exists_of_mem_tags member
  obtain ⟨-, -, ends⟩ := complete
  refine ⟨before, after, ?_, offset, ends.endsInValues_iff⟩
  rw [whole, Construct.render]
  simp

/-- A document whose first tag holds a `>` in quotes. -/
def quotedDocument : List Item :=
  [.tag "p".toList " title = 'a>b'".toList, .text "it's".toList, .closing "p".toList]

theorem mem_tags_quotedDocument :
    ⟨"p".toList, " title = 'a>b'".toList, "it's".toList, 0⟩ ∈
      tags (renderDocument quotedDocument) := by
  rw [tags, Scanner.start, Scanner.tags_document (by decide)]
  decide

theorem endsInValues_iff_quotedDocument :
    ∃ before after, renderDocument quotedDocument =
        before ++ '<' :: ("p".toList ++ " title = 'a>b'".toList ++ '>' :: after) ∧
      size before = 0 ∧
      (EndsInValues " title = 'a>b'".toList ↔
        ¬ StrayQuoteCloses (" title = 'a>b'".toList ++ '>' :: after)) :=
  endsInValues_iff_of_mem_tags mem_tags_quotedDocument

/-- Two apostrophes make one tag of two: the first stands in a bare attribute of the one, and the
second in the text behind the other. -/
theorem not_endsInValues_apostrophes :
    tags "<p don't>x</p><i>it's</i>".toList =
        [⟨"p".toList, " don't>x</p><i>it's</i".toList, [], 0⟩] ∧
      ¬ EndsInValues " don't>x</p><i>it's</i".toList := by
  constructor
  · have scanned : tags (renderDocument [.tag "p".toList " don't>x</p><i>it's</i".toList]) = _ :=
      Scanner.tags_document (by decide) 0
    exact scanned
  · intro inside
    obtain ⟨quote, name, seen, reading, -⟩ :=
      inside " don't".toList "x</p><i>it's</i".toList (by decide)
    -- The apostrophe ends the name `don`, and another name has started behind it.
    have stands : Reading.after " don't".toList = .inName ['t'] := by decide
    rw [stands] at reading
    cases reading

end KeyHarvest
