import KeyHarvest.Text.Digits
import KeyHarvest.Text.Printable

/-!
# Quoted text

A text between double quotes in which everything that could be misread is escaped: quotes and
backslashes, the usual control characters by a letter, and every other character that does not
show as itself by its code point, as `\u{1f}`.
-/
namespace KeyHarvest

/-- The escaped form of a character; `alsoEscaped` holds the quotes to escape besides `"`. -/
def escapeChar (alsoEscaped : Char → Bool) (c : Char) : Text :=
  if c = '"' ∨ c = '\\' ∨ alsoEscaped c then ['\\', c]
  else if c = '\t' then ['\\', 't']
  else if c = '\n' then ['\\', 'n']
  else if c = '\r' then ['\\', 'r']
  else if c = '\x00' then ['\\', '0']
  else if isPrintable c then [c]
  else '\\' :: 'u' :: '\x7b' :: (hexadecimal c.toNat ++ ['\x7d'])

/-- A text in double quotes. -/
def quoted (text : Text) : Text :=
  '"' :: (text.flatMap (escapeChar fun _ => false) ++ ['"'])

/-- A path in double quotes. Single quotes are escaped as well. -/
def quotedPath (path : Text) : Text :=
  '"' :: (path.flatMap (escapeChar (· == '\'')) ++ ['"'])

end KeyHarvest
