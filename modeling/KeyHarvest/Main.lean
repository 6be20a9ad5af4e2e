import KeyHarvest.Command.Reach

/-!
# The program

The outer layer: it gathers the part of the file system that a command may look at, runs the
command, prints what it has to say and writes the file that it leaves behind.
-/
namespace KeyHarvest

def locationOfPath (path : String) : Location :=
  (pieces Path.isSeparator path.toList).filter (!·.isEmpty)

/-- What an action gives, if it does not fail. -/
def attempt? {α : Type} (action : IO α) : IO (Option α) := (some <$> action) <|> pure none

/-- Adds an entry that was come to, unless it is known with its content. -/
def Disk.add (disk : Disk) (location : Location) (entry : Entry) : Disk :=
  if (disk.entry? location).isSome then disk else disk.put location entry

/-- Adds the entries below a directory; files come without their content. A directory that cannot be
listed is closed. -/
partial def surveyBelow (disk : Disk) (location : Location) : IO Disk := do
  let place := (← IO.currentDir) / String.ofList (Workspace.pathOf location)
  let some children ← attempt? place.readDir | return disk.close location
  children.foldlM (fun disk child => do
    let below := location ++ [child.fileName.toList]
    let some found ← attempt? child.path.symlinkMetadata | return disk
    match found.type with
    | .dir => surveyBelow (disk.add below .directory) below
    | .file => return disk.add below (.file [])
    | _ => return disk) disk

/-- Adds what is at a path, and what is below if it is a directory that is to be searched. A file
that cannot be read is closed. -/
def surveyPath (workspace : Workspace) (path : Text) (deep : Bool) : IO Workspace := do
  let place := (← IO.currentDir) / String.ofList path
  unless ← place.pathExists do return workspace
  let some resolved ← attempt? (IO.FS.realPath place) | return workspace
  let location := locationOfPath resolved.toString
  let disk := workspace.disk.makeDirectories location.dropLast
  if ← place.isDir then
    let disk := disk.makeDirectories location
    return { workspace with disk := ← if deep then surveyBelow disk location else pure disk }
  match ← attempt? (IO.FS.readBinFile place) with
  | some content =>
    return { workspace with disk := disk.put location (.file content.toList) }
  | none => return { workspace with disk := (disk.add location (.file [])).close location }

/-- The part of the file system that a request may look at. A working directory that is gone is one
that is not on the disk. -/
def gather (request : Request) : IO Workspace := do
  let some directory ← (some <$> IO.currentDir) <|> pure none
    | return ⟨Disk.empty, [[]]⟩
  let here := locationOfPath directory.toString
  let start : Workspace := ⟨Disk.empty.makeDirectories here, here⟩
  let withConfig ← (configurationPlaces here).foldlM (surveyPath · · false) start
  let withPlaces ← (searchPlaces withConfig request).foldlM (surveyPath · · true) withConfig
  (filesToRead withPlaces request).foldlM (surveyPath · · false) withPlaces

/-- Whether colours are wanted: forced, refused, or left to the terminal. -/
def coloursWanted : IO Bool := do
  let isSet (name : String) : IO (Option Bool) := return (← IO.getEnv name).map (· != "0")
  if (← isSet "CLICOLOR_FORCE") == some true then return true
  if (← isSet "NO_COLOR").isSome then return false
  return (← isSet "CLICOLOR").getD true && (← (← IO.getStdout).isTty)

def save (before after : Workspace) : IO Unit := do
  let location := before.here ++ [Config.fileName]
  match before.disk.entry? location, after.disk.entry? location with
  | none, some (.file content) =>
    IO.FS.writeBinFile (String.ofList (Workspace.pathOf location)) ⟨content.toArray⟩
  | _, _ => return

def start (arguments : List String) : IO UInt32 := do
  let arguments := arguments.map (·.toList)
  let request := (readArguments arguments).toOption.getD .nothing
  let workspace ← gather request
  let outcome := run (← coloursWanted) workspace arguments
  save workspace outcome.workspace
  (← IO.getStdout).putStr (String.ofList outcome.stdout)
  (← IO.getStderr).putStr (String.ofList outcome.stderr)
  return UInt32.ofNat outcome.status.code

end KeyHarvest

def main (arguments : List String) : IO UInt32 := KeyHarvest.start arguments
