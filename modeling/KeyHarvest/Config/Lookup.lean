import KeyHarvest.Config.Basic
import KeyHarvest.Files.Disk
import KeyHarvest.Text.Quoted

/-!
# Finding the configuration of a directory

The configuration file is looked for in a directory and its parents. The first directory that holds
one settles the search, and so does the first that holds a repository, which then has none. Without
a file the defaults hold.
-/
namespace KeyHarvest.Config

def fileName : Text := ".wclexrc.json".toList

/-- The name of the entry that marks the top of a repository. -/
def repositoryName : Text := ".git".toList

/-- The configuration file of the first directory that holds one, unless a directory before it holds
a repository. -/
def findIn (workspace : Workspace) : List Text → Option Text
  | [] => none
  | directory :: rest =>
    if workspace.isPresent (Path.join directory fileName) then some (Path.join directory fileName)
    else if workspace.isPresent (Path.join directory repositoryName) then none
    else findIn workspace rest

def find? (workspace : Workspace) (directory : Text) : Option Text :=
  findIn workspace (Path.ancestors directory)

inductive LoadError where
  | unreadable (path : Text) (problem : FileError)
  | malformed (path text : Text) (problem : Json.Error)
  | invalid (fault : Fault)
deriving DecidableEq, Repr

def LoadError.message : LoadError → Text
  | .unreadable path problem =>
    "Failed to read config file: ".toList ++ quotedPath path ++ ": ".toList ++ problem.message
  | .malformed path text problem =>
    "Failed to parse config file: ".toList ++ quotedPath path ++ ": ".toList ++
      problem.message text
  | .invalid fault => fault.message

structure Loaded where
  config : Config
  fromFile : Bool
deriving DecidableEq, Repr

def loadFile (workspace : Workspace) (path : Text) : Except LoadError Config :=
  match workspace.readText path with
  | .error problem => .error (.unreadable path problem)
  | .ok text =>
    match parse text with
    | .error problem => .error (.malformed path text problem)
    | .ok config =>
      match config.fault? with
      | some fault => .error (.invalid fault)
      | none => .ok config

def load (workspace : Workspace) (directory : Text) : Except LoadError Loaded :=
  match find? workspace directory with
  | some path => (loadFile workspace path).map (⟨·, true⟩)
  | none => .ok ⟨default, false⟩

end KeyHarvest.Config
