/-!
# Units of source text

Markup is scanned either as decoded text or as the raw bytes of a file. All delimiters of the
markup are ASCII, so a scan needs two facts about a unit only: its code, and how many bytes it
takes in UTF-8. Both kinds of text share every definition below through the class `CodeUnit`.
-/
namespace KeyHarvest

/-- Decoded text, as the list of its characters. -/
abbrev Text := List Char

/-! A statement about the characters of a text is decided on the text, not on all characters. -/

instance (priority := 2000) decidableForallMemText (text : Text) (property : Char → Prop)
    [DecidablePred property] : Decidable (∀ c ∈ text, property c) :=
  List.decidableBAll property text

instance (priority := 2000) decidableForallMemOption (first : Option Char) (property : Char → Prop)
    [DecidablePred property] : Decidable (∀ c ∈ first, property c) :=
  first.decidableForallMem

/-- A unit of source text: a character, or a byte of undecoded content. -/
class CodeUnit (α : Type) where
  /-- The number that identifies the unit. -/
  code : α → Nat
  /-- The number of bytes that the unit takes. -/
  width : α → Nat

instance : CodeUnit Char where
  code := Char.toNat
  width := Char.utf8Size

instance : CodeUnit UInt8 where
  code := UInt8.toNat
  width := fun _ => 1

namespace CodeUnit

variable {α : Type} [CodeUnit α]

def is (c : Char) (a : α) : Bool := code a == c.toNat

/-- The space of markup: tab, line feed, form feed, carriage return and blank. -/
def isSpace (a : α) : Bool :=
  code a == 9 || code a == 10 || code a == 12 || code a == 13 || code a == 32

def isLetter (a : α) : Bool :=
  (65 ≤ code a && code a ≤ 90) || (97 ≤ code a && code a ≤ 122)

def isQuote (a : α) : Bool := is '"' a || is '\'' a

def size (text : List α) : Nat := text.foldl (fun count a => count + width a) 0

theorem foldl_width (text : List α) (count : Nat) :
    text.foldl (fun count a => count + width a) count = count + size text := by
  induction text generalizing count with
  | nil => rfl
  | cons a rest ih =>
    rw [size, List.foldl_cons, List.foldl_cons, ih, ih (0 + width a)]
    omega

@[simp] theorem size_nil : size ([] : List α) = 0 := rfl

@[simp] theorem size_cons (a : α) (text : List α) : size (a :: text) = width a + size text := by
  rw [size, List.foldl_cons, foldl_width, Nat.zero_add]

@[simp] theorem size_append (left right : List α) :
    size (left ++ right) = size left + size right := by
  rw [size, List.foldl_append, foldl_width right]
  rfl

theorem width_pos (c : Char) : 0 < width c := Char.utf8Size_pos c

theorem eq_nil_of_size_eq_zero {text : Text} (empty : size text = 0) : text = [] := by
  cases text with
  | nil => rfl
  | cons c rest =>
    have wide := width_pos c
    rw [size_cons] at empty
    omega

@[simp] theorem is_char (c d : Char) : is c d = (d.toNat == c.toNat) := rfl

theorem is_iff {c d : Char} : is c d = true ↔ d = c := by
  rw [is_char, beq_iff_eq, Char.toNat_inj]

theorem not_is_iff {c d : Char} : is c d = false ↔ d ≠ c := by
  rw [← Bool.not_eq_true, is_iff]

theorem isQuote_iff {c : Char} : isQuote c = true ↔ c = '"' ∨ c = '\'' := by
  rw [isQuote, Bool.or_eq_true, is_iff, is_iff]

/-- A unit has one code, so it is the unit of one character only. -/
theorem not_is_of_ne {c d : Char} {a : α} (other : c ≠ d) (same : is c a = true) :
    is d a = false := by
  rw [← Bool.not_eq_true]
  intro both
  rw [is, beq_iff_eq] at same both
  exact other (Char.toNat_inj.mp (same.symm.trans both))

theorem exists_is_of_isQuote {a : α} (quotes : isQuote a = true) :
    ∃ quote : Char, isQuote quote = true ∧ is quote a = true := by
  rw [isQuote, Bool.or_eq_true] at quotes
  rcases quotes with double | single
  · exact ⟨'"', rfl, double⟩
  · exact ⟨'\'', rfl, single⟩

theorem forall_not_is_iff {c : Char} {text : Text} :
    (∀ d ∈ text, is c d = false) ↔ c ∉ text := by
  simp only [not_is_iff]
  constructor
  · exact fun other member => other c member rfl
  · rintro missing d member rfl
    exact missing member

theorem size_bytes (bytes : List UInt8) : size bytes = bytes.length := by
  induction bytes with
  | nil => rfl
  | cons b rest ih => simp [ih, width, Nat.add_comm]

end CodeUnit
end KeyHarvest
