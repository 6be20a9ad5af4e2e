import KeyHarvest.Glob.Expand

/-!
# Discovery of source files

The files below some directories that have one of the given extensions and are not ignored. An
ignore or include with a wildcard is a pattern; any other one is a path from the base directory,
and ignores all that is at or below it. Files are found once each, in ascending order, and every
entry that could not be looked at is counted and passed over.
-/
namespace KeyHarvest

structure Filter where
  includes : List Text
  ignores : List Text
  extensions : List Text
deriving DecidableEq, Repr

inductive Notice where
  | invalidIgnore (pattern : Text) (problem : Glob.PatternError)
  | invalidInclude (pattern : Text) (problem : Glob.PatternError)
  | missingInclude (path : Text)
  | inaccessible (path : Text) (problem : FileError)
  | missingPath (path : Text)
deriving DecidableEq, Repr

def Notice.message : Notice → Text
  | .invalidIgnore pattern problem =>
    "Invalid ignore pattern '".toList ++ pattern ++ "': ".toList ++ problem.message
  | .invalidInclude pattern problem =>
    "Invalid glob pattern '".toList ++ pattern ++ "': ".toList ++ problem.message
  | .missingInclude path => "Include path does not exist: ".toList ++ path
  | .inaccessible path problem =>
    "Cannot access path: IO error for operation on ".toList ++ path ++ ": ".toList ++
      problem.message
  | .missingPath path => "Path does not exist: ".toList ++ path

structure Scan where
  /-- The paths found, in ascending order and without repetition. -/
  files : List Text
  skipped : Nat
  notices : List Notice
deriving DecidableEq, Repr

/-! ### Ordered sets of paths -/

/-- Puts a text into its place in an ascending list, unless it is there already. -/
def insertText (text : Text) : List Text → List Text
  | [] => [text]
  | first :: rest =>
    if text = first then first :: rest
    else if text < first then text :: first :: rest
    else first :: insertText text rest

/-- The members of a list in ascending order, once each. -/
def sortTexts (texts : List Text) : List Text := texts.foldr insertText []

/-! ### Ignores -/

def ignorePatterns (ignores : List Text) : List (List Glob.Token) :=
  (ignores.filter Glob.hasWildcard).filterMap fun pattern => (Glob.readPattern pattern).toOption

def ignoreNotices (ignores : List Text) : List Notice :=
  (ignores.filter Glob.hasWildcard).filterMap fun pattern =>
    match Glob.readPattern pattern with
    | .ok _ => none
    | .error problem => some (.invalidIgnore pattern problem)

/-- The paths that the ignores without a wildcard stand for. -/
def ignoredPaths (base : Text) (ignores : List Text) : List Text :=
  (ignores.filter (!Glob.hasWildcard ·)).map (Path.join base)

/-- Whether a path is at or below an ignored one, or matches an ignored pattern. -/
def isIgnored (base : Text) (ignores : List Text) (path : Text) : Bool :=
  (ignoredPaths base ignores).any (Path.startsWith path) ||
    (ignorePatterns ignores).any (Glob.matchTokens · path)

/-! ### Includes -/

/-- The directories and files that one include stands for, and the notice about one that stands for
nothing. -/
def resolveInclude (workspace : Workspace) (base pattern : Text) : List Text × List Notice :=
  let path := Path.join base pattern
  if Glob.hasWildcard pattern then
    match Glob.readExpansion path with
    | .ok expansion => ((Glob.expand workspace expansion).filter (workspace.isDirectory ·), [])
    | .error problem => ([], [.invalidInclude pattern problem])
  else if workspace.isPresent path then ([path], [])
  else ([], [.missingInclude path])

/-- Where to search: the base itself, if there are no includes. -/
def resolveIncludes (workspace : Workspace) (base : Text) (includes : List Text) :
    List Text × List Notice :=
  if includes.isEmpty then ([base], [])
  else
    let resolved := includes.map (resolveInclude workspace base)
    (resolved.flatMap (·.1), resolved.flatMap (·.2))

/-! ### Scans -/

/-- Extensions match exactly, and a path without one has none of them. -/
def hasExtension (extensions : List Text) (path : Text) : Bool :=
  match Path.extension? path with
  | some extension => extensions.contains extension
  | none => false

/-- Whether a walk keeps an entry. Ignored directories are still walked; what is below them is
judged by its own path. -/
def isKept (base : Text) (filter : Filter) (path : Text) (entry : Entry) : Bool :=
  !isIgnored base filter.ignores path &&
    match entry with
    | .file _ => hasExtension filter.extensions path
    | .directory => false

/-- What a scan makes of an item of a walk: an entry that is kept is found, any other one is passed
over, and an error is told. -/
def scanItem (base : Text) (filter : Filter) :
    Except Workspace.WalkError (Text × Entry) → Option (Except Notice Text)
  | .error failure => some (.error (.inaccessible failure.path failure.problem))
  | .ok (path, entry) => if isKept base filter path entry then some (.ok path) else none

/-- What is found by a walk from a path, and what cannot be looked at on the way. -/
def searchPath (workspace : Workspace) (base : Text) (filter : Filter) (path : Text) :
    List (Except Notice Text) :=
  (workspace.walk path).filterMap (scanItem base filter)

def noticeOf? {α : Type} : Except Notice α → Option Notice
  | .error notice => some notice
  | .ok _ => none

def scanFiles (workspace : Workspace) (base : Text) (filter : Filter) : Scan :=
  let (places, notices) := resolveIncludes workspace base filter.includes
  let searched := places.flatMap (searchPath workspace base filter)
  let missed := searched.filterMap noticeOf?
  { files := sortTexts (searched.filterMap Except.toOption)
    skipped := missed.length
    notices := ignoreNotices filter.ignores ++ notices ++ missed }

/-- Searches one path that was asked for: a file is taken as it is, a directory is searched. -/
def scanPath (workspace : Workspace) (filter : Filter) (path : Text) : Scan :=
  if workspace.isFile path then ⟨[path], 0, []⟩
  else if workspace.isDirectory path then
    scanFiles workspace path { filter with includes := [] }
  else ⟨[], 1, [.missingPath path]⟩

def scanPaths (workspace : Workspace) (filter : Filter) (paths : List Text) : Scan :=
  let scans := paths.map (scanPath workspace filter)
  { files := sortTexts (scans.flatMap (·.files))
    skipped := scans.foldl (fun count scan => count + scan.skipped) 0
    notices := scans.flatMap (·.notices) }

end KeyHarvest
