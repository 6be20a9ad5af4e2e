import KeyHarvest.Json.Reader
import KeyHarvest.Keys.Record

/-!
# Options of a tag

The options attribute of a tag holds a JSON object. Its member `defaultValue`, if it is a string,
is the default value of every key that the tag declares. Options that cannot be read leave the
records as they are.
-/
namespace KeyHarvest

inductive OptionsError where
  | invalidJson (text : Text) (problem : Json.Error)
  | notAnObject
deriving DecidableEq, Repr

def OptionsError.message : OptionsError → Text
  | .invalidJson text problem => "invalid options JSON: ".toList ++ problem.message text
  | .notAnObject => "options must be a JSON object".toList

def optionsDefault? (text : Text) : Except OptionsError (Option Text) :=
  match Json.parse text with
  | .error problem => .error (.invalidJson text problem)
  | .ok (.object members) =>
    match Json.member? members Record.defaultValueField with
    | some (.string value) => .ok (some value)
    | _ => .ok none
  | .ok _ => .error .notAnObject

/-- The default value that the options attribute of a tag names. -/
def defaultValue? (declared : List (Attribute Char)) (optionAttr : Text) :
    Except OptionsError (Option Text) :=
  match lookup declared optionAttr with
  | .value text => optionsDefault? text
  | _ => .ok none

def Record.withDefault (record : Record) (value : Text) : Record :=
  { record with defaultValue := some value }

/-- Gives the records of a tag the default value of its options. Gives the records after that, and
what was wrong with the options. -/
def mergeOptions (records : List Record) (declared : List (Attribute Char)) (optionAttr : Text) :
    List Record × Option OptionsError :=
  match defaultValue? declared optionAttr with
  | .ok (some value) => (records.map (·.withDefault value), none)
  | .ok none => (records, none)
  | .error problem => (records, some problem)

end KeyHarvest
