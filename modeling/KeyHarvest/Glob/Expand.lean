import KeyHarvest.Files.Disk
import KeyHarvest.Glob.Pattern

/-!
# Expanding patterns to paths

A pattern is expanded component by component from the working directory or the root. A component
without wildcards or classes is followed as it stands, any other one is compared with the names in
the directories reached so far, and `**` reaches every directory below. Relative paths are written
without a leading `./`.
-/
namespace KeyHarvest.Glob

/-- The text of a component in which every token is a literal. -/
def literalText? : List Token → Option Text
  | [] => some []
  | .literal c :: rest => (literalText? rest).map (c :: ·)
  | _ => none

inductive Step where
  /-- A name without wildcards. -/
  | literal (name : Text)
  /-- Any name that the tokens match. -/
  | wild (tokens : List Token)
  /-- Any number of directories. -/
  | anyDepth
deriving DecidableEq, Repr

/-- The step that the tokens of a component stand for; `**` is a component of its own. -/
def Step.ofTokens (tokens : List Token) : Step :=
  if tokens.contains .anyDirectories then .anyDepth
  else
    match literalText? tokens with
    | some name => .literal name
    | none => .wild tokens

def Step.matchesName (name : Text) : Step → Bool
  | .literal text => name = text
  | .wild tokens => matchTokens tokens name
  | .anyDepth => true

/-- Several steps of any depth in a row are one. -/
def mergeDepths : List Step → List Step
  | .anyDepth :: .anyDepth :: rest => mergeDepths (.anyDepth :: rest)
  | step :: rest => step :: mergeDepths rest
  | [] => []

structure Expansion where
  absolute : Bool
  steps : List Step
  directoriesOnly : Bool
deriving DecidableEq, Repr

/-- The pieces of a text, without an empty one after the last separator. -/
def piecesTerminated (text : Text) : List Text :=
  let all := pieces Path.isSeparator text
  if all.getLast? = some [] then all.dropLast else all

/-- Reads a pattern for expansion. It has to be valid as a whole and component by component. -/
def readExpansion (pattern : Text) : Except PatternError Expansion := do
  let _ ← readPattern pattern
  let absolute := Path.isAbsolute pattern
  let relative := if absolute then pattern.drop 1 else pattern
  let components ← (piecesTerminated relative).mapM readPattern
  return ⟨absolute, mergeDepths (components.map .ofTokens), pattern.getLast? == some '/'⟩

/-- Whether a path is the working directory itself, however it is written. -/
def isHere (path : Text) : Bool := Path.components path = [.current]

/-- The path of an entry in a directory; in the working directory, the bare name. -/
def pathIn (directory name : Text) : Text :=
  if isHere directory then name else Path.join directory name

/-- The names below a directory, in the directory itself or at any depth, as the names that lead
there. Directories that cannot be listed hold none, and nobody is told. -/
def namesBelow (workspace : Workspace) (path : Text) (deep : Bool) : List (List Text) :=
  match workspace.entryAt path with
  | .ok (location, .directory) =>
    ((if deep then workspace.disk.listed location else workspace.disk.children location).map
      fun entry => entry.1.drop location.length)
  | _ => []

def pathThrough (directory : Text) : List Text → Text
  | [] => directory
  | name :: rest => rest.foldl Path.join (pathIn directory name)

/-- The names `.` and `..` that a component matches. Only one that starts with a point does. -/
def specialNames (tokens : List Token) : List Text :=
  match tokens with
  | .literal '.' :: _ => [['.'], ['.', '.']].filter (matchTokens tokens)
  | _ => []

def expandFrom (workspace : Workspace) (directoriesOnly : Bool) : List Step → Text → List Text
  | [], path => if directoriesOnly && !workspace.isDirectory path then [] else [path]
  | .literal name :: rest, path =>
    let next := pathIn path name
    let found :=
      if name = ['.'] ∨ name = ['.', '.'] then workspace.isDirectory path
      else workspace.isPresent next
    if found then expandFrom workspace directoriesOnly rest next else []
  | .wild tokens :: rest, path =>
    let named := (namesBelow workspace path false).filter fun names =>
      names.any (matchTokens tokens)
    (named.map (pathThrough path)).flatMap (expandFrom workspace directoriesOnly rest) ++
      if workspace.isListable path then
        ((specialNames tokens).map (Path.join path)).flatMap
          (expandFrom workspace directoriesOnly rest)
      else []
  | [.anyDepth], path =>
    ((namesBelow workspace path true).map (pathThrough path)).filter (workspace.isDirectory ·)
  | .anyDepth :: step :: rest, path =>
    let named := (namesBelow workspace path true).filter fun names =>
      names.getLast?.any step.matchesName
    (named.map (pathThrough path)).flatMap (expandFrom workspace directoriesOnly rest)

def expand (workspace : Workspace) (expansion : Expansion) : List Text :=
  expandFrom workspace expansion.directoriesOnly expansion.steps
    (if expansion.absolute then ['/'] else ['.'])

end KeyHarvest.Glob
