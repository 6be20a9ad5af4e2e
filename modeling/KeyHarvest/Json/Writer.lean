import KeyHarvest.Json.String

/-!
# Writing JSON

A value is written over several lines, with two blanks of indent for every level. Empty lists and
objects have no space inside.
-/
namespace KeyHarvest.Json

/-- A text before each of its successors but the first. -/
def separated (separator : Text) : List Text → Text
  | [] => []
  | [last] => last
  | first :: rest => first ++ separator ++ separated separator rest

def writeBool (value : Bool) : Text := (if value then "true" else "false").toList

def newLine (level : Nat) : Text := '\n' :: List.replicate (2 * level) ' '

/-- The items between two brackets, each on a line of its own. -/
def block (opening closing : Char) (level : Nat) : List Text → Text
  | [] => [opening, closing]
  | items =>
    opening :: newLine (level + 1) ++ separated (',' :: newLine (level + 1)) items ++
      newLine level ++ [closing]

mutual

def Value.pretty (level : Nat) : Value → Text
  | .null => "null".toList
  | .bool value => writeBool value
  | .number value => value.text
  | .string value => escape value
  | .array items => block '[' ']' level (prettyItems (level + 1) items)
  | .object members => block '\x7b' '\x7d' level (prettyMembers (level + 1) members)

def prettyItems (level : Nat) : List Value → List Text
  | [] => []
  | item :: rest => item.pretty level :: prettyItems level rest

def prettyMembers (level : Nat) : List (Text × Value) → List Text
  | [] => []
  | (name, value) :: rest =>
    (escape name ++ ": ".toList ++ value.pretty level) :: prettyMembers level rest

end

def Value.strings (items : List Text) : Value := .array (items.map .string)

end KeyHarvest.Json
