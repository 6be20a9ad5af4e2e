import KeyHarvest.Keys.Record

/-!
# Keys as they are written

What the key in a piece of a value is, said without reading the piece from left to right, and the
forms in which keys can be written in a value: with a qualifier, with blanks around both, and with
blank pieces between them.
-/
namespace KeyHarvest

def IsBlankText (text : Text) : Prop := ∀ c ∈ text, isBlank c = true

/-- Neither the first nor the last character is blank. -/
def IsTrimmed (text : Text) : Prop :=
  (∀ c ∈ text.head?, isBlank c = false) ∧ ∀ c ∈ text.getLast?, isBlank c = false

/-- What is left of a text without the blanks at its ends. -/
def Trims (text inner : Text) : Prop :=
  ∃ left right, text = left ++ (inner ++ right) ∧ IsBlankText left ∧ IsBlankText right ∧
    IsTrimmed inner

/-- Whether a text starts with a bracket that closes. -/
def IsQualified (text : Text) : Prop := text.head? = some '[' ∧ ']' ∈ text

instance (text : Text) : Decidable (IsBlankText text) :=
  inferInstanceAs (Decidable (∀ c ∈ text, isBlank c = true))

instance (text : Text) : Decidable (IsTrimmed text) := inferInstanceAs (Decidable (_ ∧ _))

instance (text : Text) : Decidable (IsQualified text) := inferInstanceAs (Decidable (_ ∧ _))

/-- The key in a piece: what is left when the piece is trimmed, or what is left behind the first
closing bracket if the trimmed piece starts with a bracket. -/
inductive KeyIn (piece : Text) : Text → Prop where
  | plain {key : Text} (trims : Trims piece key) (plain : ¬ IsQualified key) : KeyIn piece key
  | qualified {qualifier rest key : Text}
    (trims : Trims piece ('[' :: (qualifier ++ ']' :: rest))) (first : ']' ∉ qualifier)
    (behind : Trims rest key) : KeyIn piece key

/-! ### Values -/

/-- A value with these pieces. -/
def joined (pieces : List Text) : Text := [';'].intercalate pieces

/-- A piece of a value as it is written: nothing but blanks, or a key with blanks around it and, if
it has one, around its qualifier. -/
inductive WrittenPiece where
  | blank (space : Text)
  | keyed (before : Text) (qualifier : Option Text) (between key after : Text)
deriving DecidableEq, Repr

namespace WrittenPiece

def render : WrittenPiece → Text
  | .blank space => space
  | .keyed before none between key after => before ++ (between ++ (key ++ after))
  | .keyed before (some qualifier) between key after =>
    before ++ ('[' :: (qualifier ++ ']' :: (between ++ (key ++ after))))

def key? : WrittenPiece → Option Text
  | .blank _ => none
  | .keyed _ _ _ key _ => some key

/-- A key is trimmed, not empty and not cut at a semicolon, and does not start with a bracket that
closes. A qualifier holds neither a closing bracket nor a semicolon. -/
def WellFormed : WrittenPiece → Prop
  | .blank space => IsBlankText space
  | .keyed before qualifier between key after =>
    IsBlankText before ∧ (∀ inner ∈ qualifier, ']' ∉ inner ∧ ';' ∉ inner) ∧ IsBlankText between ∧
      (key ≠ [] ∧ IsTrimmed key ∧ ';' ∉ key ∧ ¬ IsQualified key) ∧ IsBlankText after

instance : (piece : WrittenPiece) → Decidable piece.WellFormed
  | .blank space => inferInstanceAs (Decidable (IsBlankText space))
  | .keyed before qualifier between key after =>
    inferInstanceAs (Decidable (IsBlankText before ∧
      (∀ inner ∈ qualifier, ']' ∉ inner ∧ ';' ∉ inner) ∧ IsBlankText between ∧
        (key ≠ [] ∧ IsTrimmed key ∧ ';' ∉ key ∧ ¬ IsQualified key) ∧ IsBlankText after))

end WrittenPiece

end KeyHarvest
