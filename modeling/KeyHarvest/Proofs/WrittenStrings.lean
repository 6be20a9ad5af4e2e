import KeyHarvest.Json.Reader
import KeyHarvest.Json.Writer

/-!
# Written strings are read back

A string is written character by character, and each character is read back from what was written
for it, be it the character itself, a letter behind a backslash or four hexadecimal digits
(`readCharacters_escapeCharacter`). So a string that was written is read whole, whatever follows it
(`readString_escape`).
-/
namespace KeyHarvest.Json

/-! ### Escapes -/

theorem letterEscape?_escapeLetter? {c letter : Char} (written : escapeLetter? c = some letter) :
    letterEscape? letter = some c ∧ letter ≠ 'u' := by
  unfold escapeLetter? at written
  split at written <;> cases written <;> decide

theorem readEscape_letter {c letter : Char} (written : escapeLetter? c = some letter)
    (rest : Text) : readEscape (letter :: rest) = .ok (c, rest) := by
  obtain ⟨meant, other⟩ := letterEscape?_escapeLetter? written
  rw [readEscape, meant]
  simpa using other

theorem fourDigits?_append {numeral : Text} {code : Nat}
    (read : fourDigits? numeral = some (code, [])) (rest : Text) :
    fourDigits? (numeral ++ rest) = some (code, rest) := by
  unfold fourDigits? at read
  split at read
  next a b c d others =>
    split at read
    next digits =>
      simp only [Option.some.injEq, Prod.mk.injEq] at read
      obtain ⟨rfl, rfl⟩ := read
      simp [fourDigits?, *]
    next => cases read
  next => cases read

theorem fourDigits?_padded :
    ∀ code < 0x20, fourDigits? (padded 4 (hexadecimal code)) = some (code, []) := by
  decide

theorem readEscape_code {c : Char} (control : isControl c = true) (rest : Text) :
    readEscape ('u' :: (padded 4 (hexadecimal c.toNat) ++ rest)) = .ok (c, rest) := by
  have small : c.toNat < 0x20 := by simpa [isControl] using control
  have digits := fourDigits?_append (fourDigits?_padded c.toNat small) rest
  -- A code this small is not half of a surrogate pair, so nothing is read behind it.
  have notLow : isLowSurrogate c.toNat = false := by simp [isLowSurrogate]; omega
  have notHigh : isHighSurrogate c.toNat = false := by simp [isHighSurrogate]; omega
  simp [readEscape, readCodeEscape, readHexadecimal, digits, notLow, notHigh, bind, Except.bind,
    pure, Except.pure]

/-- What is written for a character is read as that character. -/
theorem readCharacters_escapeCharacter (c : Char) (seen rest : Text) :
    readCharacters seen (escapeCharacter c ++ rest) = readCharacters (c :: seen) rest := by
  rw [escapeCharacter]
  split
  next letter written =>
    rw [List.cons_append, List.cons_append, List.nil_append, readCharacters,
      readEscape_letter written]
  next none =>
    split
    next control =>
      rw [List.cons_append, List.cons_append, readCharacters]
      rw [readEscape_code control]
    next plain =>
      -- A quote and a backslash have letters of their own.
      have quote : c ≠ '"' := by rintro rfl; simp [escapeLetter?] at none
      have backslash : c ≠ '\\' := by rintro rfl; simp [escapeLetter?] at none
      rw [List.cons_append, List.nil_append, readCharacters]
      · rw [if_neg plain]
      · simpa using quote
      · simpa using backslash

theorem readCharacters_escape (text seen rest : Text) :
    readCharacters seen (text.flatMap escapeCharacter ++ '"' :: rest) =
      .ok (seen.reverse ++ text, rest) := by
  induction text generalizing seen with
  | nil => simp [readCharacters]
  | cons c text ih =>
    rw [List.flatMap_cons, List.append_assoc, readCharacters_escapeCharacter, ih]
    simp

theorem readString_escape (text rest : Text) :
    readString (text.flatMap escapeCharacter ++ '"' :: rest) = .ok (text, rest) :=
  readCharacters_escape text [] rest

end KeyHarvest.Json
