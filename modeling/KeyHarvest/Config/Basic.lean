import KeyHarvest.Glob.Pattern
import KeyHarvest.Keys.Markers
import KeyHarvest.Text.Blank

/-!
# Configuration

What a project sets for itself: the marker attributes, the directories to search, what to ignore
in them, the extensions of source files and the directory that paths start from. `Config.toValue`
is the JSON object of a configuration and `Config.read` its reader; a field that is left out has
its default. `Config.fault?` is what makes a configuration invalid.
-/
namespace KeyHarvest

structure Config where
  markers : Markers
  /-- Directories to search, literal or as patterns; none means the source root itself. -/
  includes : List Text
  ignores : List Text
  extensions : List Text
  sourceRoot : Text
deriving DecidableEq, Repr

namespace Config
open Json

def defaultIgnores : List Text := ["**/node_modules/**".toList]

def defaultExtensions : List Text :=
  ["html".toList, "htm".toList, "js".toList, "ts".toList, "jsx".toList, "tsx".toList, "vue".toList,
    "svelte".toList]

def defaultSourceRoot : Text := "./".toList

def default : Config := ⟨.default, [], defaultIgnores, defaultExtensions, defaultSourceRoot⟩

/-! ### Validity -/

inductive Fault where
  | emptyAttr
  | emptyOptionAttr
  | noExtensions
  | invalidIgnore (pattern : Text) (problem : Glob.PatternError)
  | invalidInclude (pattern : Text) (problem : Glob.PatternError)
deriving DecidableEq, Repr

def Fault.message : Fault → Text
  | .emptyAttr => "'attr' must not be empty".toList
  | .emptyOptionAttr => "'optionAttr' must not be empty".toList
  | .noExtensions => "'extensions' must list at least one file extension".toList
  | .invalidIgnore pattern problem => invalid "ignores".toList pattern problem
  | .invalidInclude pattern problem => invalid "includes".toList pattern problem
where
  invalid (field pattern : Text) (problem : Glob.PatternError) : Text :=
    "Invalid glob pattern in '".toList ++ field ++ "': \"".toList ++ pattern ++ "\": ".toList ++
      problem.message

def firstInvalid? (patterns : List Text) : Option (Text × Glob.PatternError) :=
  patterns.findSome? fun pattern =>
    match Glob.readPattern pattern with
    | .ok _ => none
    | .error problem => some (pattern, problem)

/-- The first fault of a configuration. Includes without a wildcard are paths and have none. -/
def fault? (config : Config) : Option Fault :=
  if (trim config.markers.attr).isEmpty then some .emptyAttr
  else if (trim config.markers.optionAttr).isEmpty then some .emptyOptionAttr
  else if config.extensions.isEmpty then some .noExtensions
  else
    match firstInvalid? config.ignores with
    | some (pattern, problem) => some (.invalidIgnore pattern problem)
    | none =>
      (firstInvalid? (config.includes.filter Glob.hasWildcard)).map
        fun (pattern, problem) => .invalidInclude pattern problem

/-! ### Configuration as JSON -/

def includesField : Text := "includes".toList

def ignoresField : Text := "ignores".toList

def extensionsField : Text := "extensions".toList

def sourceRootField : Text := "sourceRoot".toList

/-- The markers stand beside the other fields, not in an object of their own. -/
def toValue (config : Config) : Value :=
  .object (config.markers.toMembers ++
    [(includesField, .strings config.includes), (ignoresField, .strings config.ignores),
      (extensionsField, .strings config.extensions), (sourceRootField, .string config.sourceRoot)])

def text (config : Config) : Text := config.toValue.pretty 0

/-- The fields read so far, and all other members, last first. -/
structure Fields where
  includes : Option (List Text)
  ignores : Option (List Text)
  extensions : Option (List Text)
  sourceRoot : Option Text
  others : List (Text × Value)

/-- Reads the fields that are known here; the other members are kept for the markers. -/
def readMember : MemberReader Fields := fun name fields text =>
  if name = includesField then do
    let (includes, rest) ← readField name fields.includes readTexts text
    return ({ fields with includes }, rest)
  else if name = ignoresField then do
    let (ignores, rest) ← readField name fields.ignores readTexts text
    return ({ fields with ignores }, rest)
  else if name = extensionsField then do
    let (extensions, rest) ← readField name fields.extensions readTexts text
    return ({ fields with extensions }, rest)
  else if name = sourceRootField then do
    let (sourceRoot, rest) ← readField name fields.sourceRoot readText text
    return ({ fields with sourceRoot }, rest)
  else do
    let (others, rest) ← keepMember (readValue (depthLimit - 1)) name fields.others text
    return ({ fields with others }, rest)

/-- What a value is where a string was expected. -/
def textOfValue : Value → Except Cause Text
  | .string text => .ok text
  | .null => .error (.wrongType .null "a string".toList)
  | .bool value => .error (.wrongType (.bool value) "a string".toList)
  | .number value => .error (.wrongType (.number value) "a string".toList)
  | .array _ => .error (.wrongType .array "a string".toList)
  | .object _ => .error (.wrongType .object "a string".toList)

/-- Takes a field from a value that was kept; a field that was taken before is refused. -/
def takeField (name : Text) (before : Option Text) (value : Value) : Except Cause (Option Text) :=
  if before.isSome then .error (.repeatedField name) else (textOfValue value).map some

def takeMarkers (fields : Markers.Fields) : List (Text × Value) → Except Cause Markers.Fields
  | [] => .ok fields
  | (name, value) :: rest =>
    if name = Markers.attrField then do
      let attr ← takeField name fields.attr value
      takeMarkers { fields with attr } rest
    else if name = Markers.optionAttrField then do
      let optionAttr ← takeField name fields.optionAttr value
      takeMarkers { fields with optionAttr } rest
    else takeMarkers fields rest

def complete (fields : Fields) : Except Cause Config := do
  let markers ← takeMarkers ⟨none, none⟩ fields.others.reverse
  return ⟨markers.complete, fields.includes.getD [], fields.ignores.getD defaultIgnores,
    fields.extensions.getD defaultExtensions, fields.sourceRoot.getD defaultSourceRoot⟩

/-- Reads a configuration from an object. An error about the markers has its place at the end of
the object, as they are taken from it when all of it is read. -/
def read : Reader Config := fun text =>
  match skipGaps text with
  | [] => .error (.before .endInValue [])
  | '\x7b' :: rest => do
    let (fields, rest) ← readMembers readMember ⟨none, none, none, none, []⟩ rest
    match complete fields with
    | .ok config => return (config, rest)
    | .error cause => throw (.before cause rest)
  | next => .error (wrongType "struct Config".toList next)

def parse (text : Text) : Except Error Config := readWhole read text

end Config
end KeyHarvest
