import KeyHarvest.Files.Path
import KeyHarvest.Text.Utf8

/-!
# Directories and files

A `Disk` lists its entries by location; the root directory is there without an entry. There are no
links, so a location names one entry. Some locations are closed: the file there cannot be read, and
the directory there cannot be listed. A `Workspace` is a disk with a working directory, and follows
paths from there name by name: every name but the last has to be a directory, and so has the last
when a separator or `.` follows it. A walk tells of every entry at and below its start, and where a
directory cannot be listed it tells of that and goes on.
-/
namespace KeyHarvest

/-- The names from the root down to an entry. -/
abbrev Location := List Text

inductive Entry where
  | directory
  | file (content : List UInt8)
deriving DecidableEq, Repr

inductive FileError where
  | notFound
  | notADirectory
  | isADirectory
  | permissionDenied
  | nameTooLong
  | nulInPath
  /-- The content is not UTF-8 where text was expected. -/
  | notText
deriving DecidableEq, Repr

def FileError.message : FileError → Text
  | .notFound => "No such file or directory (os error 2)".toList
  | .notADirectory => "Not a directory (os error 20)".toList
  | .isADirectory => "Is a directory (os error 21)".toList
  | .permissionDenied => "Permission denied (os error 13)".toList
  | .nameTooLong => "File name too long (os error 36)".toList
  | .nulInPath => "file name contained an unexpected NUL byte".toList
  | .notText => "stream did not contain valid UTF-8".toList

def nameLimit : Nat := 255

def pathLimit : Nat := 4095

/-- The entries of a file system, each with its location, and the locations that are closed. Paths
lead to a closed directory and through it, as through any other one. -/
structure Disk where
  entries : List (Location × Entry)
  closed : List Location
deriving DecidableEq, Repr

namespace Disk

def empty : Disk := ⟨[], []⟩

def entry? (disk : Disk) (location : Location) : Option Entry :=
  if location = [] then some .directory
  else (disk.entries.find? (·.1 = location)).map (·.2)

def below (disk : Disk) (location : Location) : List (Location × Entry) :=
  disk.entries.filter fun entry => location.isPrefixOf entry.1 && location.length < entry.1.length

/-- Whether no directory is closed on the way from one to an entry in it. -/
def isOpenTo (disk : Disk) (directory location : Location) : Bool :=
  disk.closed.all fun place =>
    !(directory.isPrefixOf place && place.isPrefixOf location && place != location)

/-- The entries below a directory that come to light when it is listed, and the directories in it,
as far as they can be. -/
def listed (disk : Disk) (directory : Location) : List (Location × Entry) :=
  (disk.below directory).filter fun entry => disk.isOpenTo directory entry.1

def children (disk : Disk) (directory : Location) : List (Location × Entry) :=
  (disk.listed directory).filter fun entry => entry.1.length = directory.length + 1

/-- A disk is well formed if every entry stands once, in a directory, under a name that is a single
component of a path. -/
structure WellFormed (disk : Disk) : Prop where
  once : (disk.entries.map (·.1)).Nodup
  inDirectory : ∀ location name entry, (location ++ [name], entry) ∈ disk.entries →
    disk.entry? location = some .directory
  named : ∀ location entry, (location, entry) ∈ disk.entries →
    location ≠ [] ∧ ∀ name ∈ location, Path.component? name = some (.name name) ∧
      '/' ∉ name ∧ '\x00' ∉ name

/-- Puts an entry, which is not closed, in the place of the one that may be at its location. -/
def put (disk : Disk) (location : Location) (entry : Entry) : Disk :=
  if location = [] then disk
  else
    ⟨disk.entries.filter (·.1 ≠ location) ++ [(location, entry)],
      disk.closed.filter (· ≠ location)⟩

/-- Closes the entry at a location. -/
def close (disk : Disk) (location : Location) : Disk :=
  { disk with closed := location :: disk.closed }

/-- Makes a directory and all directories above it that are missing. -/
def makeDirectories (disk : Disk) (location : Location) : Disk :=
  (List.range (location.length + 1)).foldl
    (fun disk count =>
      if (disk.entry? (location.take count)).isSome then disk
      else disk.put (location.take count) .directory) disk

def follow (disk : Disk) (location : Location) : List Text → Except FileError Location
  | [] => .ok location
  | name :: rest =>
    match disk.entry? location with
    | none => .error .notFound
    | some (.file _) => .error .notADirectory
    | some .directory =>
      if name = [] ∨ name = ['.'] then disk.follow location rest
      else if name = ['.', '.'] then disk.follow location.dropLast rest
      else if nameLimit < CodeUnit.size name then .error .nameTooLong
      else if (disk.entry? (location ++ [name])).isNone then .error .notFound
      else disk.follow (location ++ [name]) rest

end Disk

/-- A disk and the working directory from which relative paths start. -/
structure Workspace where
  disk : Disk
  here : Location
deriving DecidableEq, Repr

namespace Workspace

def pathOf (location : Location) : Text :=
  if location = [] then ['/'] else location.flatMap fun name => '/' :: name

def locate (workspace : Workspace) (path : Text) : Except FileError Location :=
  if path.contains '\x00' then .error .nulInPath
  else if path.isEmpty then .error .notFound
  else if pathLimit < CodeUnit.size path then .error .nameTooLong
  else
    workspace.disk.follow (if Path.isAbsolute path then [] else workspace.here)
      (pieces Path.isSeparator path)

def entryAt (workspace : Workspace) (path : Text) : Except FileError (Location × Entry) :=
  match workspace.locate path with
  | .error problem => .error problem
  | .ok location =>
    match workspace.disk.entry? location with
    | some entry => .ok (location, entry)
    | none => .error .notFound

def isPresent (workspace : Workspace) (path : Text) : Bool := (workspace.entryAt path).isOk

def isFile (workspace : Workspace) (path : Text) : Bool :=
  match workspace.entryAt path with
  | .ok (_, .file _) => true
  | _ => false

def isDirectory (workspace : Workspace) (path : Text) : Bool :=
  match workspace.entryAt path with
  | .ok (_, .directory) => true
  | _ => false

def read (workspace : Workspace) (path : Text) : Except FileError (List UInt8) :=
  match workspace.entryAt path with
  | .error problem => .error problem
  | .ok (location, entry) =>
    if location ∈ workspace.disk.closed then .error .permissionDenied
    else
      match entry with
      | .file content => .ok content
      | .directory => .error .isADirectory

def readText (workspace : Workspace) (path : Text) : Except FileError Text :=
  match workspace.read path with
  | .error problem => .error problem
  | .ok content =>
    match decode? content with
    | some text => .ok text
    | none => .error .notText

def writeHere (workspace : Workspace) (name : Text) (content : List UInt8) :
    Except FileError Workspace :=
  match workspace.disk.entry? workspace.here with
  | some .directory =>
    .ok { workspace with disk := workspace.disk.put (workspace.here ++ [name]) (.file content) }
  | some (.file _) => .error .notADirectory
  | none => .error .notFound

/-! ### Walks -/

/-- Why the directory at a location cannot be listed by a path that leads there, if it cannot. -/
def listingError? (workspace : Workspace) (path : Text) (location : Location) : Option FileError :=
  if pathLimit < CodeUnit.size path then some .nameTooLong
  else if location ∈ workspace.disk.closed then some .permissionDenied
  else none

/-- Whether a path leads to a directory that can be listed. -/
def isListable (workspace : Workspace) (path : Text) : Bool :=
  match workspace.entryAt path with
  | .ok (location, .directory) => (workspace.listingError? path location).isNone
  | _ => false

/-- The path of an entry below a directory, given the directory's path. -/
def pathBelow (path : Text) (directory location : Location) : Text :=
  (location.drop directory.length).foldl Path.join path

/-- An entry that a walk comes to, with the path by which it does. -/
structure Visit where
  path : Text
  location : Location
  entry : Entry
deriving DecidableEq, Repr

/-- The entries that a walk comes to from one of them. It goes on into every directory that it can
list; the path of a directory is longer than those of all directories above it, so it is enough that
the path of the last one is not too long. -/
def visits (workspace : Workspace) (path : Text) (location : Location) (entry : Entry) :
    List Visit :=
  ⟨path, location, entry⟩ :: match entry with
    | .file _ => []
    | .directory =>
      ((workspace.disk.listed location).filter fun (place, _) =>
        CodeUnit.size (pathBelow path location place.dropLast) ≤ pathLimit).map
          fun (place, entry) => ⟨pathBelow path location place, place, entry⟩

structure WalkError where
  path : Text
  problem : FileError
deriving DecidableEq, Repr

/-- What a walk tells of an entry: first the entry itself, and then, if it is a directory that
cannot be listed, that it is. -/
def report (workspace : Workspace) (visit : Visit) : List (Except WalkError (Text × Entry)) :=
  .ok (visit.path, visit.entry) :: match visit.entry with
    | .file _ => []
    | .directory =>
      ((workspace.listingError? visit.path visit.location).map fun problem =>
        .error ⟨visit.path, problem⟩).toList

/-- The entry at a path and all entries below it, with their paths, and an error for whatever cannot
be looked at. -/
def walk (workspace : Workspace) (path : Text) : List (Except WalkError (Text × Entry)) :=
  match workspace.entryAt path with
  | .error problem => [.error ⟨path, problem⟩]
  | .ok (location, entry) => (workspace.visits path location entry).flatMap workspace.report

end Workspace
end KeyHarvest
