import KeyHarvest.Markup.Tag

/-!
# Markup documents

A document as the list of its items, and the text that it is written as. `Item.WellFormed` says
which items are written without ambiguity: a text in which no construct starts, a tag whose quotes
balance, and constructs that do not end early. A text and the text after it would be read as one, so
`DocumentWellFormed` asks that no two of them stand side by side.
-/
namespace KeyHarvest
open CodeUnit

inductive Item where
  | text (content : Text)
  | tag (name attributes : Text)
  | closing (body : Text)
  | instruction (body : Text)
  | declaration (body : Text)
  | comment (body : Text)
deriving DecidableEq, Repr

def commentEnd : Text := "-->".toList

def Item.render : Item → Text
  | .text content => content
  | .tag name attributes => '<' :: (name ++ attributes ++ ['>'])
  | .closing body => '<' :: '/' :: (body ++ ['>'])
  | .instruction body => '<' :: '?' :: (body ++ ['>'])
  | .declaration body => '<' :: '!' :: (body ++ ['>'])
  | .comment body => '<' :: '!' :: '-' :: '-' :: (body ++ commentEnd)

def renderDocument (items : List Item) : Text := items.flatMap Item.render

@[simp] theorem renderDocument_nil : renderDocument [] = [] := rfl

@[simp] theorem renderDocument_cons (item : Item) (items : List Item) :
    renderDocument (item :: items) = item.render ++ renderDocument items := rfl

@[simp] theorem renderDocument_append (left right : List Item) :
    renderDocument (left ++ right) = renderDocument left ++ renderDocument right :=
  List.flatMap_append

/-! ### Quotes -/

section Quotes

variable {α : Type} [CodeUnit α]

/-- The quote that is open after a text, given the one that is open before it. -/
def quoteAfter (quote : Option Char) (text : List α) : Option Char := text.foldl stepQuote quote

def Balanced (text : List α) : Prop := quoteAfter none text = none

/-- No `>` stands outside quotes, where `quote` is open before the text. -/
def NoBareEnd (quote : Option Char) (text : List α) : Prop :=
  ∀ before close after, text = before ++ close :: after → is '>' close = true →
    quoteAfter quote before ≠ none

/-- Every quote of a text is closed by its like, and the units between the quoted parts have the
property. A quoted part goes from a quote to the next one of its kind, whatever stands inside. -/
inductive Quoting (property : α → Prop) : List α → Prop
  | done : Quoting property []
  | bare {a : α} {rest : List α} (unquoted : isQuote a = false) (holds : property a)
      (later : Quoting property rest) : Quoting property (a :: rest)
  | quoted {quote : Char} {start stop : α} {inside rest : List α} (delimits : isQuote quote = true)
      (opens : is quote start = true) (unclosed : ∀ a ∈ inside, is quote a = false)
      (closes : is quote stop = true) (later : Quoting property rest) :
      Quoting property (start :: (inside ++ stop :: rest))

theorem quoteAfter_append (quote : Option Char) (left right : List α) :
    quoteAfter quote (left ++ right) = quoteAfter (quoteAfter quote left) right :=
  List.foldl_append

end Quotes

/-! ### Documents that are read back as written -/

/-- No construct of markup starts in the text, read on its own. -/
def IsPlain (text : Text) : Prop :=
  ∀ before after, text = before ++ after → startsMarkup after = false

/-- A name of a tag: a letter, and then no space, `>` or `/`. -/
def IsTagName (name : Text) : Prop :=
  (∃ first rest, name = first :: rest ∧ isLetter first = true) ∧
    ∀ c ∈ name, isTagNameUnit c = true

/-- The first `-->` of `--`, body and `-->` is the one at the end. -/
def EndsComment (body : Text) : Prop :=
  ∀ before after, '-' :: '-' :: (body ++ commentEnd) = before ++ commentEnd ++ after → after = []

def Item.WellFormed : Item → Prop
  | .text content => content ≠ [] ∧ IsPlain content
  | .tag name attributes =>
    IsTagName name ∧ (∀ first ∈ attributes.head?, isTagNameUnit first = false) ∧
      Balanced attributes ∧ NoBareEnd none attributes
  | .closing body => '>' ∉ body
  | .instruction body => '>' ∉ body
  | .declaration body => '>' ∉ body ∧ body.take 2 ≠ ['-', '-']
  | .comment body => EndsComment body

def Item.isText : Item → Bool
  | .text _ => true
  | _ => false

/-- Every item is well formed, and no text follows a text. -/
def DocumentWellFormed : List Item → Prop
  | [] => True
  | item :: rest =>
    item.WellFormed ∧ (item.isText = true → ∀ next ∈ rest.head?, next.isText = false) ∧
      DocumentWellFormed rest

def startingText : List Item → Text
  | .text content :: _ => content
  | _ => []

/-- The tags of a document whose first item starts at an offset. -/
def documentTags (offset : Nat) : List Item → List (Tag Char)
  | [] => []
  | item :: rest =>
    let others := documentTags (offset + size item.render) rest
    match item with
    | .tag name attributes => ⟨name, attributes, startingText rest, offset⟩ :: others
    | _ => others

end KeyHarvest
