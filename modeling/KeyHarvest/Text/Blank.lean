import KeyHarvest.Text.Split

/-!
# Blank space in text

The 25 characters of the Unicode property `White_Space`, and the removal of such characters from
both ends of a text. Markup itself separates names by a smaller set, `CodeUnit.isSpace`.
-/
namespace KeyHarvest

/-- Whether a character has the property `White_Space`. -/
def isBlank (c : Char) : Bool :=
  (9 ≤ c.toNat && c.toNat ≤ 13) || c.toNat == 0x20 || c.toNat == 0x85 || c.toNat == 0xA0 ||
    c.toNat == 0x1680 || (0x2000 ≤ c.toNat && c.toNat ≤ 0x200A) || c.toNat == 0x2028 ||
    c.toNat == 0x2029 || c.toNat == 0x202F || c.toNat == 0x205F || c.toNat == 0x3000

/-- The text without the blanks at its start and end. -/
def trim (text : Text) : Text :=
  ((text.dropWhile isBlank).reverse.dropWhile isBlank).reverse

@[simp] theorem trim_nil : trim [] = [] := rfl

end KeyHarvest
