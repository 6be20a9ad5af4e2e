import KeyHarvest.Files.Disk
import KeyHarvest.Keys.Extraction

/-!
# Extraction from many files

Every file is read and extracted on its own. Bytes that are not UTF-8 are replaced, and a file that
cannot be read is set apart with its reason without an effect on the others. Both kinds keep the
order in which the files were given.
-/
namespace KeyHarvest

structure FileExtraction where
  path : Text
  records : List Record
  warnings : List Warning
deriving DecidableEq, Repr

structure ReadFailure where
  path : Text
  problem : FileError
deriving DecidableEq, Repr

def ReadFailure.message (failure : ReadFailure) : Text :=
  "Failed to read file: ".toList ++ failure.problem.message

structure Batch where
  files : List FileExtraction
  failures : List ReadFailure
deriving DecidableEq, Repr

namespace Batch

def empty : Batch := ⟨[], []⟩

def totalKeys (batch : Batch) : Nat := (batch.files.flatMap (·.records)).length

def warningCount (batch : Batch) : Nat := (batch.files.flatMap (·.warnings)).length

/-- Every file that was given counts, read or not. -/
def filesChecked (batch : Batch) : Nat := batch.files.length + batch.failures.length

end Batch

def extractSource (markers : Markers) (path text : Text) : FileExtraction :=
  let extraction := extract markers text
  ⟨path, extraction.records, extraction.warnings⟩

def extractFile (workspace : Workspace) (markers : Markers) (path : Text) :
    Except ReadFailure FileExtraction :=
  match workspace.read path with
  | .ok content => .ok (extractSource markers path (decodeLossy content))
  | .error problem => .error ⟨path, problem⟩

/-- Adds the outcome of one more file at the end. -/
def Batch.push (batch : Batch) : Except ReadFailure FileExtraction → Batch
  | .ok file => { batch with files := batch.files ++ [file] }
  | .error failure => { batch with failures := batch.failures ++ [failure] }

def extractFiles (workspace : Workspace) (markers : Markers) (paths : List Text) : Batch :=
  let outcomes := paths.map (extractFile workspace markers)
  { files := outcomes.filterMap fun
      | .ok file => some file
      | .error _ => none
    failures := outcomes.filterMap fun
      | .ok _ => none
      | .error failure => some failure }

end KeyHarvest
