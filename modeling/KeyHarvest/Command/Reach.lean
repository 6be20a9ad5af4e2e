import KeyHarvest.Command.Run

/-!
# What a command may look at

A command is run on a workspace, which holds the part of the file system that the command may look
at. Which part that is comes out step by step: where the configuration may be, then the places that
are searched under it, and then the files whose content is read.
-/
namespace KeyHarvest

/-- Where a configuration file, or the repository that ends the search for one, may be. -/
def configurationPlaces (here : Location) : List Text :=
  (Path.ancestors (Workspace.pathOf here)).flatMap fun directory =>
    [Path.join directory Config.fileName, Path.join directory Config.repositoryName]

/-- The part of a pattern before its first component with a wildcard or class. -/
def literalStart (pattern : Text) : Text :=
  let isLiteral (piece : Text) : Bool := !Glob.hasWildcard piece && !piece.contains '['
  let start := ((pieces Path.isSeparator pattern).takeWhile isLiteral).flatMap fun piece =>
    piece ++ ['/']
  if start.isEmpty then ['.'] else start

def searchPlaces (workspace : Workspace) (request : Request) : List Text :=
  match request with
  | .extract request =>
    if request.paths.isEmpty then
      match resolveConfig workspace request with
      | .ok config =>
        if config.includes.isEmpty then [config.sourceRoot]
        else
          config.includes.map fun pattern =>
            let path := Path.join config.sourceRoot pattern
            if Glob.hasWildcard pattern then literalStart path else path
      | .error _ => []
    else request.paths
  | _ => []

def filesToRead (workspace : Workspace) (request : Request) : List Text :=
  match request with
  | .extract request =>
    match resolveConfig workspace request with
    | .ok config => (discover workspace config request.paths).files
    | .error _ => []
  | _ => []

end KeyHarvest
