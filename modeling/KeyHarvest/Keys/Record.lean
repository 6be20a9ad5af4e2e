import KeyHarvest.Json.Skip
import KeyHarvest.Json.Writer
import KeyHarvest.Markup.Attribute
import KeyHarvest.Text.Blank

/-!
# Translation keys

A tag declares translation keys in the value of an attribute: pieces between semicolons, each
trimmed, with one leading qualifier in square brackets taken off. An attribute without a value
stands for a single key, the text after the tag. `Record` is a key with the default value that the
options of its tag may give it; records are written as JSON objects and read back from them.
-/
namespace KeyHarvest

/-- A translation key, and the text to show where it has no translation. -/
structure Record where
  key : Text
  defaultValue : Option Text
deriving DecidableEq, Repr

def Record.ofKey (key : Text) : Record := ⟨key, none⟩

/-! ### Keys of an attribute -/

def isKeySeparator (c : Char) : Bool := c == ';'

/-- A text without the closed qualifier at its start, if it has one. -/
def dropQualifier : Text → Text
  | '[' :: rest =>
    match splitAt? (· == ']') rest with
    | some (_, after) => trim after
    | none => '[' :: rest
  | text => text

/-- The key in one piece of an attribute value, unless nothing is left of it. -/
def key? (piece : Text) : Option Text :=
  let key := dropQualifier (trim piece)
  if key.isEmpty then none else some key

/-- The keys that an attribute declares, given the text after its tag. -/
def keys (found : Lookup Char) (followingText : Text) : List Text :=
  match found with
  | .absent => []
  | .value text => (pieces isKeySeparator text).filterMap key?
  | .noValue => (key? followingText).toList

def normalize (found : Lookup Char) (followingText : Text) : List Record :=
  (keys found followingText).map .ofKey

/-! ### Records as JSON -/

namespace Record
open Json

def keyField : Text := "key".toList

def defaultValueField : Text := "defaultValue".toList

/-- The members of a record as a JSON object; a missing default value is left out. -/
def members (record : Record) : List (Text × Value) :=
  (keyField, .string record.key) ::
    (record.defaultValue.map fun text => (defaultValueField, .string text)).toList

def toValue (record : Record) : Value := .object record.members

structure Fields where
  key : Option Text
  defaultValue : Option (Option Text)

def readMember : MemberReader Fields := fun name fields text =>
  if name = keyField then do
    let (key, rest) ← readField name fields.key readText text
    return ({ fields with key }, rest)
  else if name = defaultValueField then do
    let (defaultValue, rest) ← readField name fields.defaultValue readText? text
    return ({ fields with defaultValue }, rest)
  else do return (fields, ← skipValue (← readColon text))

def readMembers : Reader Record := fun text => do
  let (fields, rest) ← Json.readMembers readMember ⟨none, none⟩ text
  match fields.key with
  | some key => return (⟨key, fields.defaultValue.join⟩, rest)
  | none => throw (.before (.missingField keyField) rest)

def readItems : Reader Record := fun text => do
  match ← nextItem? readText true text with
  | (none, rest) =>
    throw (.before (.wrongLength 0 "struct ExtractionRecord with 2 elements".toList) (rest.drop 1))
  | (some key, rest) =>
    let (defaultValue, rest) ← nextItem? readText? false rest
    return (⟨key, defaultValue.join⟩, ← readListEnd rest)

/-- Reads a record from an object, or from the list of its fields in order. -/
def read : Reader Record := fun text =>
  match skipGaps text with
  | [] => .error (.before .endInValue [])
  | '[' :: rest => readItems rest
  | '\x7b' :: rest => readMembers rest
  | next => .error (wrongType "struct ExtractionRecord".toList next)

end Record
end KeyHarvest
