import KeyHarvest.Markup.Declaration
import KeyHarvest.Markup.Document

/-!
# Documents attribute by attribute

A document whose tags are written attribute by attribute. `Node.item` forgets the attributes and
keeps the text they are written as. Quotes stand only around values here, so that no condition on
the quotes of a tag is needed.
-/
namespace KeyHarvest
open CodeUnit

inductive Node where
  | text (content : Text)
  /-- A tag, with the text between its last attribute and the `>`. -/
  | tag (name : Text) (declarations : List Declaration) (ending : Text)
  | closing (body : Text)
  | instruction (body : Text)
  | declaration (body : Text)
  | comment (body : Text)
deriving DecidableEq, Repr

def Node.item : Node → Item
  | .text content => .text content
  | .tag name declarations ending => .tag name (renderDeclarations declarations ++ ending)
  | .closing body => .closing body
  | .instruction body => .instruction body
  | .declaration body => .declaration body
  | .comment body => .comment body

def renderNodes (nodes : List Node) : Text := renderDocument (nodes.map Node.item)

def IsQuiet (text : Text) : Prop := ∀ c ∈ text, isQuote c = false ∧ c ≠ '>'

/-- In a tag a bare value is quiet. -/
def Declaration.FitsTag (declaration : Declaration) : Prop :=
  match declaration.form with
  | .bare value => IsQuiet value
  | _ => True

/-- Space stands behind the name of a tag, and only space and `/` behind its last attribute. -/
def Node.WellFormed : Node → Prop
  | .tag name declarations ending =>
    IsTagName name ∧ DeclarationsWellFormed declarations ∧
      (∀ declaration ∈ declarations, declaration.FitsTag) ∧
      (∀ first ∈ declarations.head?, first.space ≠ []) ∧
      (∀ last ∈ declarations.getLast?, last.EndsBefore ending) ∧
      ∀ c ∈ ending, isSpace c = true ∨ c = '/'
  | node => node.item.WellFormed

/-- Every node is well formed, and no text follows a text. -/
def NodesWellFormed : List Node → Prop
  | [] => True
  | node :: rest =>
    node.WellFormed ∧ (node.item.isText = true → ∀ next ∈ rest.head?, next.item.isText = false) ∧
      NodesWellFormed rest

end KeyHarvest
