import KeyHarvest.Command.Help
import KeyHarvest.Config.Lookup
import KeyHarvest.Discovery
import KeyHarvest.Report

/-!
# Running a command

`run` is the whole program as a function: from the arguments, and the workspace in which it is
called, to what it writes, how it ends and the workspace it leaves behind. An extraction succeeds
unless a file could not be read; only `init` ever changes the disk.
-/
namespace KeyHarvest

inductive ExitStatus where
  | success
  /-- The command was carried out, but not all of its work could be done. -/
  | failure
  | error
deriving DecidableEq, Repr

def ExitStatus.code : ExitStatus → Nat
  | .success => 0
  | .failure => 1
  | .error => 2

/-- What a command leaves behind. -/
structure Outcome where
  status : ExitStatus
  stdout : Text
  stderr : Text
  workspace : Workspace
deriving DecidableEq, Repr

def Outcome.failed (workspace : Workspace) (message : Text) : Outcome :=
  ⟨.error, [], line ("Error: ".toList ++ message), workspace⟩

def Outcome.shown (workspace : Workspace) (text : Text) : Outcome :=
  ⟨.success, text, [], workspace⟩

/-! ### Extraction -/

/-- A configuration with the settings of a request in place of its own. -/
def ExtractRequest.override (request : ExtractRequest) (config : Config) : Config :=
  { config with
    markers := ⟨request.attr.getD config.markers.attr,
      request.optionAttr.getD config.markers.optionAttr⟩
    sourceRoot := request.sourceRoot.getD config.sourceRoot }

/-- The configuration that a request is carried out with, or the message why there is none. -/
def resolveConfig (workspace : Workspace) (request : ExtractRequest) : Except Text Config :=
  match Config.load workspace (Workspace.pathOf workspace.here) with
  | .error problem => .error problem.message
  | .ok loaded =>
    let config := request.override loaded.config
    match config.fault? with
    | some fault => .error fault.message
    | none => .ok config

def Config.filter (config : Config) : Filter :=
  ⟨config.includes, config.ignores, config.extensions⟩

/-- The files that a request is about: those at the paths it names, or else those of the
configuration. -/
def discover (workspace : Workspace) (config : Config) (paths : List Text) : Scan :=
  if paths.isEmpty then scanFiles workspace config.sourceRoot config.filter
  else scanPaths workspace config.filter paths

def runExtract (colours : Bool) (workspace : Workspace) (request : ExtractRequest) : Outcome :=
  match workspace.disk.entry? workspace.here with
  | some .directory =>
    match resolveConfig workspace request with
    | .error message => .failed workspace message
    | .ok config =>
      let scan := discover workspace config request.paths
      let batch := extractFiles workspace config.markers scan.files
      { status := if batch.failures.isEmpty then .success else .failure
        stdout := match request.format with
          | .text => Report.text colours batch
          | .json => Report.json batch
        stderr := Report.notices colours request.verbose scan.notices ++
          Report.diagnostics colours request.verbose batch
        workspace }
  | _ =>
    .failed workspace
      ("Failed to resolve current directory.: ".toList ++ FileError.notFound.message)

/-! ### Initialisation -/

/-- Writes the default configuration into the working directory, unless there is a file of its
name. -/
def runInit (colours : Bool) (workspace : Workspace) : Outcome :=
  if workspace.isPresent Config.fileName then
    ⟨.failure, [], line ("Error: ".toList ++ Config.fileName ++ " already exists".toList),
      workspace⟩
  else
    match workspace.writeHere Config.fileName (encode Config.default.text) with
    | .ok after =>
      .shown after (successLine colours ("Created ".toList ++ Config.fileName))
    | .error problem =>
      .failed workspace
        ("Failed to write ".toList ++ Config.fileName ++ ": ".toList ++ problem.message)

/-! ### Any command -/

def runRequest (colours : Bool) (workspace : Workspace) : Request → Outcome
  | .nothing => .shown workspace Topic.program.text
  | .help topic => .shown workspace topic.text
  | .version => .shown workspace versionText
  | .init => runInit colours workspace
  | .extract request => runExtract colours workspace request

def usageText (problem : UsageError) : Text :=
  line ("error: ".toList ++ problem.message) ++
    "\nFor more information, try '--help'.\n".toList

def run (colours : Bool) (workspace : Workspace) (arguments : List Text) : Outcome :=
  match readArguments arguments with
  | .ok request => runRequest colours workspace request
  | .error problem => ⟨.error, [], usageText problem, workspace⟩

end KeyHarvest
