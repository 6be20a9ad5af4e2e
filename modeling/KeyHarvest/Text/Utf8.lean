import KeyHarvest.Text.CodeUnit

/-!
# UTF-8

An automaton reads UTF-8 byte by byte. It knows which bytes may come next, so it refuses a
sequence at the first byte that no character can have there: overlong forms, surrogates and codes
beyond the last one never come about. What was read of a refused character makes one malformed
run, and the refused byte starts afresh.

`decode?` refuses bytes with a malformed run; `decodeLossy` puts one replacement character in the
place of each.
-/
namespace KeyHarvest

/-- A character of which some bytes are read. -/
structure Unfinished where
  /-- The bits read so far. -/
  value : Nat
  /-- The number of bytes still owed. -/
  owed : Nat
  /-- The least byte that may come next. -/
  low : Nat
  /-- The greatest byte that may come next. -/
  high : Nat
deriving DecidableEq, Repr

/-- The units that a byte completes, characters or malformed runs, and what it leaves unfinished. -/
abbrev Fed := List (Option Char) × Option Unfinished

/-- Reads the first byte of a character. -/
def feedFirst (byte : Nat) : Fed :=
  if byte < 0x80 then ([some (Char.ofNat byte)], none)
  else if byte < 0xC2 then ([none], none)
  else if byte < 0xE0 then ([], some ⟨byte - 0xC0, 1, 0x80, 0xBF⟩)
  else if byte = 0xE0 then ([], some ⟨0, 2, 0xA0, 0xBF⟩)
  else if byte = 0xED then ([], some ⟨0xD, 2, 0x80, 0x9F⟩)
  else if byte < 0xF0 then ([], some ⟨byte - 0xE0, 2, 0x80, 0xBF⟩)
  else if byte = 0xF0 then ([], some ⟨0, 3, 0x90, 0xBF⟩)
  else if byte < 0xF4 then ([], some ⟨byte - 0xF0, 3, 0x80, 0xBF⟩)
  else if byte = 0xF4 then ([], some ⟨4, 3, 0x80, 0x8F⟩)
  else ([none], none)

/-- Reads one more byte. -/
def feed : Option Unfinished → Nat → Fed
  | none, byte => feedFirst byte
  | some character, byte =>
    if character.low ≤ byte ∧ byte ≤ character.high then
      let value := character.value * 64 + (byte - 0x80)
      if character.owed ≤ 1 then ([some (Char.ofNat value)], none)
      else ([], some ⟨value, character.owed - 1, 0x80, 0xBF⟩)
    else
      let (units, unfinished) := feedFirst byte
      (none :: units, unfinished)

/-- The characters of a byte sequence, with `none` for each malformed run. -/
def decodeUnits (bytes : List UInt8) : List (Option Char) :=
  go [] none bytes
where
  go (seen : List (Option Char)) (unfinished : Option Unfinished) :
      List UInt8 → List (Option Char)
    | [] => if unfinished.isSome then (none :: seen).reverse else seen.reverse
    | byte :: rest =>
      let (units, unfinished) := feed unfinished byte.toNat
      go (units.reverse ++ seen) unfinished rest

/-- The character that stands for a malformed run. -/
def replacement : Char := '\uFFFD'

/-- The text of a byte sequence, whatever the bytes are. -/
def decodeLossy (bytes : List UInt8) : Text :=
  (decodeUnits bytes).map (·.getD replacement)

/-- The text of a well-formed byte sequence. -/
def decode? (bytes : List UInt8) : Option Text :=
  if (decodeUnits bytes).all Option.isSome then some ((decodeUnits bytes).filterMap id) else none

/-- The bytes of a text. -/
def encode (text : Text) : List UInt8 := text.flatMap String.utf8EncodeChar

end KeyHarvest
