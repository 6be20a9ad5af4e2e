import KeyHarvest.Text.Split

/-!
# Command-line arguments

`readArguments` reads the arguments from left to right. A setting takes the next argument as its
value unless that looks like an option, and its value is examined when the next option that is known
comes, or at the end. Whatever follows `--` is a path. The first error ends the reading, and so does
a request for help or for the version.
-/
namespace KeyHarvest

inductive Format where
  | text
  | json
deriving DecidableEq, Repr

/-- What the extraction of keys was asked to do. -/
structure ExtractRequest where
  paths : List Text
  attr : Option Text
  optionAttr : Option Text
  format : Format
  sourceRoot : Option Text
  verbose : Bool
deriving DecidableEq, Repr

inductive Topic where
  | program
  | extract (long : Bool)
  | init
  | help
deriving DecidableEq, Repr

/-- What the arguments ask for. -/
inductive Request where
  /-- No command was given. -/
  | nothing
  | init
  | extract (request : ExtractRequest)
  | help (topic : Topic)
  | version
deriving DecidableEq, Repr

inductive UsageError where
  | unknownArgument (argument : Text)
  | unknownCommand (argument : Text)
  | missingValue (option : Text)
  | invalidValue (value option : Text)
  | repeated (option : Text)
  | unneededValue (value option : Text)
deriving DecidableEq, Repr

def UsageError.message : UsageError → Text
  | .unknownArgument argument =>
    "unexpected argument '".toList ++ argument ++ "' found".toList
  | .unknownCommand argument => "unrecognized subcommand '".toList ++ argument ++ "'".toList
  | .missingValue option =>
    "a value is required for '".toList ++ option ++ "' but none was supplied".toList
  | .invalidValue value option =>
    "invalid value '".toList ++ value ++ "' for '".toList ++ option ++ "'".toList
  | .repeated option =>
    "the argument '".toList ++ option ++ "' cannot be used multiple times".toList
  | .unneededValue value option =>
    "unexpected value '".toList ++ value ++ "' for '".toList ++ option ++
      "' found; no more were expected".toList

/-! ### Single arguments -/

inductive Shape where
  /-- The argument `--`. -/
  | terminator
  /-- `--name` or `--name=value`. -/
  | long (name : Text) (value : Option Text)
  /-- `-` and one flag or several. -/
  | short (flags : Text)
  | plain
deriving DecidableEq, Repr

/-- Tells by its hyphens what an argument looks like; a single `-` is plain. -/
def shapeOf : Text → Shape
  | ['-', '-'] => .terminator
  | '-' :: '-' :: rest =>
    match splitAt? (· == '=') rest with
    | some (name, value) => .long name (some value)
    | none => .long rest none
  | '-' :: flag :: rest => .short (flag :: rest)
  | _ => .plain

inductive Setting where
  | attr
  | optionAttr
  | format
  | sourceRoot
deriving DecidableEq, Repr

def Setting.ofName? (name : Text) : Option Setting :=
  if name = "attr".toList then some .attr
  else if name = "option-attr".toList then some .optionAttr
  else if name = "format".toList then some .format
  else if name = "source-root".toList then some .sourceRoot
  else none

def Setting.display : Setting → Text
  | .attr => "--attr <ATTR>".toList
  | .optionAttr => "--option-attr <OPTION_ATTR>".toList
  | .format => "--format <FORMAT>".toList
  | .sourceRoot => "--source-root <SOURCE_ROOT>".toList

def pathsDisplay : Text := "[PATHS]...".toList

def verboseDisplay : Text := "--verbose".toList

def helpDisplay : Text := "--help".toList

def versionDisplay : Text := "--version".toList

/-! ### The arguments of an extraction -/

/-- What was read of an extraction. -/
structure Draft where
  paths : List Text
  attr : Option Text
  optionAttr : Option Text
  format : Option Format
  sourceRoot : Option Text
  verbose : Bool
deriving DecidableEq, Repr

def Draft.empty : Draft := ⟨[], none, none, none, none, false⟩

/-- The format is text unless another one was asked for. -/
def Draft.request (draft : Draft) : ExtractRequest :=
  ⟨draft.paths, draft.attr, draft.optionAttr, draft.format.getD .text, draft.sourceRoot,
    draft.verbose⟩

/-- What was read but not yet examined. -/
inductive Pending where
  | nothing
  | setting (setting : Setting) (value : Option Text)
  | paths (paths : List Text)
deriving DecidableEq, Repr

def readFormat (value : Text) : Except UsageError Format :=
  if value = "text".toList then .ok .text
  else if value = "json".toList then .ok .json
  else if value.isEmpty then .error (.missingValue Setting.format.display)
  else .error (.invalidValue value Setting.format.display)

/-- Gives a setting its value. A setting is given once. -/
def Draft.set (draft : Draft) (setting : Setting) (value : Text) : Except UsageError Draft :=
  let repeated : Except UsageError Draft := .error (.repeated setting.display)
  match setting with
  | .attr => if draft.attr.isSome then repeated else .ok { draft with attr := some value }
  | .optionAttr =>
    if draft.optionAttr.isSome then repeated else .ok { draft with optionAttr := some value }
  | .format =>
    if draft.format.isSome then repeated
    else (readFormat value).map fun format => { draft with format := some format }
  | .sourceRoot =>
    if draft.sourceRoot.isSome then repeated
    else if value.isEmpty then .error (.missingValue setting.display)
    else .ok { draft with sourceRoot := some value }

def Draft.settle (draft : Draft) : Pending → Except UsageError Draft
  | .nothing => .ok draft
  | .setting setting none => .error (.missingValue setting.display)
  | .setting setting (some value) => draft.set setting value
  | .paths paths =>
    if paths.contains [] then .error (.missingValue pathsDisplay)
    else .ok { draft with paths := draft.paths ++ paths }

def Draft.setVerbose (draft : Draft) : Except UsageError Draft :=
  if draft.verbose then .error (.repeated verboseDisplay) else .ok { draft with verbose := true }

/-- Reads flags that stand together. Gives nothing where help is wanted. -/
def readFlags (draft : Draft) (pending : Pending) : Text → Except UsageError (Option Draft)
  | [] => (draft.settle pending).map some
  | flag :: rest =>
    if flag = 'v' then do readFlags (← (← draft.settle pending).setVerbose) .nothing rest
    else if flag = 'h' then do
      let _ ← draft.settle pending
      return none
    else .error (.unknownArgument ['-', flag])

/-- What becomes pending with an argument that is no option. -/
def Draft.take (draft : Draft) (pending : Pending) (argument : Text) (onlyPaths : Bool) :
    Except UsageError (Draft × Pending) :=
  match pending with
  | .paths paths => .ok (draft, .paths (paths ++ [argument]))
  | .setting setting none =>
    if onlyPaths then .error (.missingValue setting.display)
    else .ok (draft, .setting setting (some argument))
  | _ => do return (← draft.settle pending, .paths [argument])

/-- Reads the arguments of an extraction; after `--` there are only paths. -/
def readExtract (onlyPaths : Bool) (draft : Draft) (pending : Pending) :
    List Text → Except UsageError Request
  | [] => do return .extract (← draft.settle pending).request
  | argument :: rest =>
    match if onlyPaths then Shape.plain else shapeOf argument with
    | .plain => do
      let (draft, pending) ← draft.take pending argument onlyPaths
      readExtract onlyPaths draft pending rest
    | .terminator => readExtract true draft pending rest
    | .short flags => do
      match ← readFlags draft pending flags with
      | some draft => readExtract onlyPaths draft .nothing rest
      | none => return .help (.extract false)
    | .long name value =>
      match Setting.ofName? name, value with
      | some setting, some value => do
        let draft ← (← draft.settle pending).set setting value
        readExtract onlyPaths draft .nothing rest
      | some setting, none => do
        readExtract onlyPaths (← draft.settle pending) (.setting setting none) rest
      | none, some value =>
        if name = "verbose".toList then .error (.unneededValue value verboseDisplay)
        else if name = "help".toList then .error (.unneededValue value helpDisplay)
        else .error (.unknownArgument ('-' :: '-' :: name))
      | none, none =>
        if name = "verbose".toList then do
          readExtract onlyPaths (← (← draft.settle pending).setVerbose) .nothing rest
        else if name = "help".toList then do
          let _ ← draft.settle pending
          return .help (.extract true)
        else .error (.unknownArgument ('-' :: '-' :: name))

/-! ### The other commands -/

def readInit (onlyPaths : Bool) : List Text → Except UsageError Request
  | [] => .ok .init
  | argument :: rest =>
    match if onlyPaths then Shape.plain else shapeOf argument with
    | .plain => .error (.unknownArgument argument)
    | .terminator => readInit true rest
    | .short flags =>
      if flags.head? = some 'h' then .ok (.help .init)
      else .error (.unknownArgument ('-' :: flags.take 1))
    | .long name value =>
      if name = "help".toList then
        match value with
        | some value => .error (.unneededValue value helpDisplay)
        | none => .ok (.help .init)
      else .error (.unknownArgument ('-' :: '-' :: name))

inductive Command where
  | extract
  | init
  | help
deriving DecidableEq, Repr

def Command.ofName? (name : Text) : Option Command :=
  if name = "extract".toList then some .extract
  else if name = "init".toList then some .init
  else if name = "help".toList then some .help
  else none

def readHelp : List Text → Except UsageError Request
  | [] => .ok (.help .program)
  | name :: rest =>
    match Command.ofName? name, rest with
    | none, _ => .error (.unknownCommand name)
    | some _, next :: _ => .error (.unknownCommand next)
    | some .extract, [] => .ok (.help (.extract true))
    | some .init, [] => .ok (.help .init)
    | some .help, [] => .ok (.help .help)

def readArguments : List Text → Except UsageError Request
  | [] => .ok .nothing
  | argument :: rest =>
    match Command.ofName? argument with
    | some .extract => readExtract false .empty .nothing rest
    | some .init => readInit false rest
    | some .help => readHelp rest
    | none =>
      match shapeOf argument with
      | .plain => .error (.unknownCommand argument)
      | .terminator =>
        match rest with
        | [] => .ok .nothing
        | next :: _ =>
          if (Command.ofName? next).isSome then .error (.unknownArgument next)
          else .error (.unknownCommand next)
      | .short flags =>
        if flags.head? = some 'h' then .ok (.help .program)
        else if flags.head? = some 'V' then .ok .version
        else .error (.unknownArgument ('-' :: flags.take 1))
      | .long name value =>
        if name = "help".toList then
          match value with
          | some value => .error (.unneededValue value helpDisplay)
          | none => .ok (.help .program)
        else if name = "version".toList then
          match value with
          | some value => .error (.unneededValue value versionDisplay)
          | none => .ok .version
        else .error (.unknownArgument ('-' :: '-' :: name))

end KeyHarvest
