import KeyHarvest.Text.Split

/-!
# Tags of a markup text

A construct of markup starts at a `<` that a letter, `/`, `!` or `?` follows; every other `<` is
text. A `Scanner` moves through a text construct by construct and reports the tags. It accepts any
input: a comment, directive or tag that never closes ends the scan, and a tag whose quotes do not
balance ends at its first `>`.

`Scanner.turn` reads one construct, and every turn that goes on leaves less text to read
(`Scanner.length_rest_lt_of_skipped`, `Scanner.length_rest_lt_of_found`), so the scan ends.
-/
namespace KeyHarvest
open CodeUnit

variable {α : Type} [CodeUnit α]

structure Tag (α : Type) where
  name : List α
  /-- The raw text between the name and the closing `>`. -/
  attributes : List α
  /-- The text from the closing `>` to the next construct. -/
  followingText : List α
  /-- The number of bytes before the `<`. -/
  offset : Nat
deriving DecidableEq, Repr

def startsMarkup : List α → Bool
  | a :: b :: _ => is '<' a && (isLetter b || is '/' b || is '!' b || is '?' b)
  | _ => false

def startsCommentEnd : List α → Bool
  | a :: b :: c :: _ => is '-' a && is '-' b && is '>' c
  | _ => false

def isTagNameUnit (a : α) : Bool := !isSpace a && !is '>' a && !is '/' a

/-- The quote that is open after one more unit of a tag. A quote is closed by its like only. -/
def stepQuote (quote : Option Char) (a : α) : Option Char :=
  match quote with
  | some q => if is q a then none else some q
  | none => if is '"' a then some '"' else if is '\'' a then some '\'' else none

/-- Cuts a text around its first `>` at which no quote is open. -/
def splitUnquoted (quote : Option Char) (seen : List α) : List α → Option (List α × List α)
  | [] => none
  | a :: rest =>
    if quote.isNone && is '>' a then some (seen.reverse, rest)
    else splitUnquoted (stepQuote quote a) (a :: seen) rest

/-- Cuts the text after a tag's name around the tag's closing `>`. When every `>` is quoted, the
quotes are taken for stray ones and the first `>` closes the tag. -/
def splitTagEnd (text : List α) : Option (List α × List α) :=
  splitUnquoted none [] text <|> splitAt? (is '>') text

inductive Construct (α : Type) where
  /-- `<!`, the inner text, `-->`, where inner text and end together start with `--`. -/
  | comment (inner : List α)
  /-- `<`, a body that starts with `/`, `!` or `?`, and `>`. -/
  | directive (body : List α)
  /-- `<`, the name, the attribute text and `>`. -/
  | tag (name attributes : List α)
deriving DecidableEq, Repr

def Construct.size : Construct α → Nat
  | .comment inner => 2 + CodeUnit.size inner + 3
  | .directive body => 1 + CodeUnit.size body + 1
  | .tag name attributes => 1 + CodeUnit.size name + CodeUnit.size attributes + 1

/-- Reads the construct at the start of a markup text, and gives the text after it. -/
def Construct.read? : List α → Option (Construct α × List α)
  | _ :: a :: rest =>
    if is '!' a && (rest.take 2).length == 2 && (rest.take 2).all (is '-') then
      match splitBefore startsCommentEnd rest with
      | (inner, _ :: _ :: _ :: after) => some (.comment inner, after)
      | _ => none
    else if isLetter a then
      let name := (a :: rest).takeWhile isTagNameUnit
      (splitTagEnd ((a :: rest).dropWhile isTagNameUnit)).map
        fun (attributes, after) => (.tag name attributes, after)
    else
      (splitAt? (is '>') (a :: rest)).map fun (body, after) => (.directive body, after)
  | _ => none

/-! ### Every construct takes at least one unit -/

theorem splitUnquoted_shorter {quote : Option Char} {seen text attributes after : List α}
    (found : splitUnquoted quote seen text = some (attributes, after)) :
    after.length < text.length := by
  induction text generalizing quote seen with
  | nil => simp [splitUnquoted] at found
  | cons a rest ih =>
    rw [splitUnquoted] at found
    split at found
    · simp_all
    · have := ih found
      simp only [List.length_cons]
      omega

theorem splitTagEnd_shorter {text attributes after : List α}
    (found : splitTagEnd text = some (attributes, after)) : after.length < text.length := by
  rw [splitTagEnd] at found
  cases unquoted : splitUnquoted none [] text with
  | none => exact splitAt?_shorter (by simpa [unquoted] using found)
  | some cut =>
    rw [unquoted] at found
    cases found
    exact splitUnquoted_shorter unquoted

theorem Construct.read?_shorter {text after : List α} {construct : Construct α}
    (found : Construct.read? text = some (construct, after)) : after.length < text.length := by
  rw [Construct.read?.eq_def] at found
  split at found
  next first a rest =>
    split at found
    · split at found
      next inner _ _ _ after' cut =>
        have whole := congrArg List.length (splitBefore_append startsCommentEnd rest)
        simp only [cut, List.length_append, List.length_cons] at whole
        simp only [Option.some.injEq, Prod.mk.injEq] at found
        simp only [← found.2, List.length_cons]
        omega
      next => simp at found
    · split at found
      · obtain ⟨⟨attributes, after'⟩, cut, equal⟩ := Option.map_eq_some_iff.mp found
        have := splitTagEnd_shorter cut
        have := length_dropWhile_le isTagNameUnit (a :: rest)
        simp only [Prod.mk.injEq] at equal
        simp only [← equal.2, List.length_cons] at *
        omega
      · obtain ⟨⟨body, after'⟩, cut, equal⟩ := Option.map_eq_some_iff.mp found
        have := splitAt?_shorter cut
        simp only [Prod.mk.injEq] at equal
        simp only [← equal.2, List.length_cons] at *
        omega
  · simp at found

/-! ### Scanning -/

/-- A place in a text: what is still to be read, and the number of bytes before it. -/
structure Scanner (α : Type) where
  rest : List α
  offset : Nat
deriving DecidableEq, Repr

inductive Turn (α : Type) where
  /-- No complete construct is left. -/
  | finished
  /-- A comment or directive was passed over. -/
  | skipped (after : Scanner α)
  | found (tag : Tag α) (after : Scanner α)
deriving DecidableEq, Repr

namespace Scanner

def start (text : List α) : Scanner α := ⟨text, 0⟩

/-- Passes over the text before the next construct and reads that construct. -/
def turn (scanner : Scanner α) : Turn α :=
  let (text, markup) := splitBefore startsMarkup scanner.rest
  let offset := scanner.offset + size text
  match Construct.read? markup with
  | none => .finished
  | some (construct, after) =>
    let next : Scanner α := ⟨after, offset + construct.size⟩
    match construct with
    | .tag name attributes =>
      .found ⟨name, attributes, (splitBefore startsMarkup after).1, offset⟩ next
    | _ => .skipped next

theorem turn_shorter {scanner after : Scanner α}
    (went : scanner.turn = .skipped after ∨ ∃ tag, scanner.turn = .found tag after) :
    after.rest.length < scanner.rest.length := by
  have whole := congrArg List.length (splitBefore_append startsMarkup scanner.rest)
  simp only [List.length_append] at whole
  unfold turn at went
  cases read : Construct.read? (splitBefore startsMarkup scanner.rest).2 with
  | none => simp [read] at went
  | some reading =>
    obtain ⟨construct, rest⟩ := reading
    have shorter := Construct.read?_shorter read
    have equal : after.rest = rest := by
      cases construct <;> simp [read] at went <;> simp [← went]
    rw [equal]
    omega

theorem length_rest_lt_of_skipped {scanner after : Scanner α}
    (went : scanner.turn = .skipped after) : after.rest.length < scanner.rest.length :=
  turn_shorter (.inl went)

theorem length_rest_lt_of_found {scanner after : Scanner α} {tag : Tag α}
    (went : scanner.turn = .found tag after) : after.rest.length < scanner.rest.length :=
  turn_shorter (.inr ⟨tag, went⟩)

/-- The next tag, if there is one, and the place after it. A scan that has ended stays ended. -/
def next (scanner : Scanner α) : Option (Tag α) × Scanner α :=
  match _went : scanner.turn with
  | .finished => (none, ⟨[], scanner.offset + size scanner.rest⟩)
  | .skipped after => after.next
  | .found tag after => (some tag, after)
termination_by scanner.rest.length
decreasing_by exact length_rest_lt_of_skipped ‹_›

theorem length_next_lt {scanner after : Scanner α} {tag : Tag α}
    (found : scanner.next = (some tag, after)) : after.rest.length < scanner.rest.length := by
  induction scanner using next.induct with
  | case1 scanner went => rw [next, went] at found; simp at found
  | case2 scanner skipped went ih =>
    rw [next, went] at found
    exact Nat.lt_trans (ih found) (length_rest_lt_of_skipped went)
  | case3 scanner tag' after' went =>
    rw [next, went] at found
    simp only [Prod.mk.injEq] at found
    exact found.2 ▸ length_rest_lt_of_found went

def tags (scanner : Scanner α) : List (Tag α) :=
  match _found : scanner.next with
  | (none, _) => []
  | (some tag, after) => tag :: after.tags
termination_by scanner.rest.length
decreasing_by exact length_next_lt ‹_›

end Scanner

def tags (text : List α) : List (Tag α) := (Scanner.start text).tags

end KeyHarvest
