import KeyHarvest.Json.Value
import KeyHarvest.Text.Quoted

/-!
# What can be wrong with a JSON text

An error has a cause and a place. The place is given by the text that is still unread there, so
that readers need no account of lines; `Error.position` finds line and column in the whole text.
Columns count bytes from the start of the line.
-/
namespace KeyHarvest.Json

/-- What stands in a text where something else was expected. -/
inductive Found where
  | null
  | bool (value : Bool)
  | number (value : Number)
  | string (value : Text)
  | array
  | object
deriving DecidableEq, Repr

def Found.describe : Found → Text
  | .null => "null".toList
  | .bool value => "boolean `".toList ++ (if value then "true" else "false").toList ++ "`".toList
  | .number (.double value) => "floating point `".toList ++ value.text ++ "`".toList
  | .number value => "integer `".toList ++ value.text ++ "`".toList
  | .string value => "string ".toList ++ quoted value
  | .array => "sequence".toList
  | .object => "map".toList

inductive Cause where
  | endInValue
  | endInList
  | endInObject
  | endInString
  | expectedValue
  | expectedWord
  | expectedColon
  | expectedListEnd
  | expectedObjectEnd
  | expectedName
  | trailingComma
  | trailingCharacters
  | invalidNumber
  | numberOutOfRange
  | invalidEscape
  | unpairedSurrogate
  | unfinishedSurrogatePair
  | controlCharacter
  | tooDeep
  /-- A value of another type than the field has. -/
  | wrongType (found : Found) (expected : Text)
  /-- A list with too few items for what it stands for. -/
  | wrongLength (length : Nat) (expected : Text)
  | missingField (name : Text)
  | repeatedField (name : Text)
deriving DecidableEq, Repr

def Cause.message : Cause → Text
  | .endInValue => "EOF while parsing a value".toList
  | .endInList => "EOF while parsing a list".toList
  | .endInObject => "EOF while parsing an object".toList
  | .endInString => "EOF while parsing a string".toList
  | .expectedValue => "expected value".toList
  | .expectedWord => "expected ident".toList
  | .expectedColon => "expected `:`".toList
  | .expectedListEnd => "expected `,` or `]`".toList
  | .expectedObjectEnd => "expected `,` or `\x7d`".toList
  | .expectedName => "key must be a string".toList
  | .trailingComma => "trailing comma".toList
  | .trailingCharacters => "trailing characters".toList
  | .invalidNumber => "invalid number".toList
  | .numberOutOfRange => "number out of range".toList
  | .invalidEscape => "invalid escape".toList
  | .unpairedSurrogate => "lone leading surrogate in hex escape".toList
  | .unfinishedSurrogatePair => "unexpected end of hex escape".toList
  | .controlCharacter =>
    "control character (\\u0000-\\u001F) found while parsing a string".toList
  | .tooDeep => "recursion limit exceeded".toList
  | .wrongType found expected =>
    "invalid type: ".toList ++ found.describe ++ ", expected ".toList ++ expected
  | .wrongLength length expected =>
    "invalid length ".toList ++ decimal length ++ ", expected ".toList ++ expected
  | .missingField name => "missing field `".toList ++ name ++ "`".toList
  | .repeatedField name => "duplicate field `".toList ++ name ++ "`".toList

structure Error where
  cause : Cause
  rest : Text
  /-- How many bytes of `rest` are counted in, up to its end. -/
  bytes : Nat
deriving DecidableEq, Repr

def Error.before (cause : Cause) (rest : Text) : Error := ⟨cause, rest, 0⟩

def Error.inside (cause : Cause) (rest : Text) : Error := ⟨cause, rest, 1⟩

/-- The line, and the column in it, after a number of bytes of a text. -/
def position (text : Text) (bytes : Nat) : Nat × Nat :=
  go 1 0 0 text
where
  go (line lineStart offset : Nat) : Text → Nat × Nat
    | [] => (line, min bytes offset - lineStart)
    | c :: rest =>
      if offset < bytes then
        if c = '\n' then go (line + 1) (offset + 1) (offset + 1) rest
        else go line lineStart (offset + c.utf8Size) rest
      else (line, bytes - lineStart)

def Error.position (text : Text) (error : Error) : Nat × Nat :=
  Json.position text (CodeUnit.size text - CodeUnit.size error.rest + error.bytes)

def Error.message (text : Text) (error : Error) : Text :=
  let (line, column) := error.position text
  error.cause.message ++ " at line ".toList ++ decimal line ++ " column ".toList ++ decimal column

end KeyHarvest.Json
