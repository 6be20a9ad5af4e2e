import KeyHarvest.Markup.Attribute

/-!
# Attributes as they are written

The forms in which an attribute can be written, with the space around its parts, and the attribute
text of a tag that is made of them. `Declaration.declared` is what such a form declares.
-/
namespace KeyHarvest
open CodeUnit

inductive ValueForm where
  | none
  | quoted (quote : Char) (value : Text)
  | bare (value : Text)
deriving DecidableEq, Repr

/-- An attribute as it is written after some space; where there is a value, space may stand on both
sides of the `=`. -/
structure Declaration where
  space : Text
  name : Text
  spaceBefore : Text
  spaceAfter : Text
  form : ValueForm
deriving DecidableEq, Repr

namespace Declaration

def render (declaration : Declaration) : Text :=
  declaration.space ++ declaration.name ++
    match declaration.form with
    | .none => []
    | .quoted quote value =>
      declaration.spaceBefore ++ '=' :: (declaration.spaceAfter ++ quote :: (value ++ [quote]))
    | .bare value => declaration.spaceBefore ++ '=' :: (declaration.spaceAfter ++ value)

def declared (declaration : Declaration) : Attribute Char :=
  ⟨declaration.name,
    match declaration.form with
    | .none => none
    | .quoted _ value => some value
    | .bare value => some value⟩

def IsSpace (text : Text) : Prop := ∀ c ∈ text, isSpace c = true

def IsName (name : Text) : Prop := name ≠ [] ∧ ∀ c ∈ name, isAttributeNameUnit c = true

/-- A quoted value does not hold its quote; a bare one has no space and starts with no quote. -/
def FormWellFormed : ValueForm → Prop
  | .none => True
  | .quoted quote value => isQuote quote = true ∧ quote ∉ value
  | .bare value =>
    (∀ c ∈ value, isSpace c = false) ∧ ∃ first rest, value = first :: rest ∧ isQuote first = false

def WellFormed (declaration : Declaration) : Prop :=
  IsSpace declaration.space ∧ IsName declaration.name ∧ IsSpace declaration.spaceBefore ∧
    IsSpace declaration.spaceAfter ∧ FormWellFormed declaration.form

/-- Whether space has to follow before the next attribute. -/
def needsSpace (declaration : Declaration) : Bool :=
  match declaration.form with
  | .quoted _ _ => false
  | _ => true

/-- Whether a declaration is read as it is written with a text behind it: after a name no unit of a
name and no `=` may come, and after a bare value only space. -/
def EndsBefore (declaration : Declaration) (rest : Text) : Prop :=
  match declaration.form with
  | .none =>
    (∀ c ∈ rest.head?, isAttributeNameUnit c = false) ∧ ∀ c ∈ (skipSpace rest).head?, c ≠ '='
  | .quoted _ _ => True
  | .bare _ => ∀ c ∈ rest.head?, isSpace c = true

end Declaration

def renderDeclarations (declarations : List Declaration) : Text :=
  declarations.flatMap Declaration.render

/-- All forms are well formed, and there is space where two would be read as one. -/
def DeclarationsWellFormed : List Declaration → Prop
  | [] => True
  | declaration :: rest =>
    declaration.WellFormed ∧
      (declaration.needsSpace = true → ∀ next ∈ rest.head?, next.space ≠ []) ∧
      DeclarationsWellFormed rest

@[simp] theorem renderDeclarations_append (left right : List Declaration) :
    renderDeclarations (left ++ right) = renderDeclarations left ++ renderDeclarations right :=
  List.flatMap_append

end KeyHarvest
