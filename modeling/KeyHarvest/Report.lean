import KeyHarvest.Batch
import KeyHarvest.Discovery
import KeyHarvest.Json.Writer
import KeyHarvest.Text.Count
import KeyHarvest.Text.Paint
import KeyHarvest.Text.Quoted

/-!
# Reports of a batch

The records of a batch as text, grouped by file with a closing summary, or as a JSON array. Files
without records do not occur in either. Diagnostics are a report of their own: every warning and
failure, or only how many there were.
-/
namespace KeyHarvest

def successMark : Text := ['\u2713']

def line (text : Text) : Text := text ++ ['\n']

def successLine (colours : Bool) (text : Text) : Text :=
  line (paint colours .green successMark ++ ' ' :: paint colours .green text)

def warningLine (colours : Bool) (text : Text) : Text :=
  line (paint colours .warning "warning:".toList ++ ' ' :: text)

namespace Report

def filesWithKeys (batch : Batch) : List FileExtraction :=
  batch.files.filter fun file => !file.records.isEmpty

/-! ### Text -/

/-- A key, indented, with its default value if it has one. -/
def recordText (colours : Bool) (record : Record) : Text :=
  ' ' :: ' ' :: (record.key ++
    match record.defaultValue with
    | some value =>
      ' ' :: paint colours .dimmed ("(default: ".toList ++ quoted value ++ [')'])
    | none => [])

def recordLine (colours : Bool) (record : Record) : Text := line (recordText colours record)

/-- The path of a file, its records and an empty line. -/
def fileLines (colours : Bool) (file : FileExtraction) : Text :=
  line (paint colours .bold file.path) ++ file.records.flatMap (recordLine colours) ++ line []

def summary (batch : Batch) : Text :=
  if batch.totalKeys = 0 then
    "Scanned ".toList ++ counted batch.filesChecked "file".toList "files".toList ++
      " - no keys found".toList
  else
    "Extracted ".toList ++ counted batch.totalKeys "key".toList "keys".toList ++
      " from ".toList ++ counted (filesWithKeys batch).length "file".toList "files".toList

def text (colours : Bool) (batch : Batch) : Text :=
  (filesWithKeys batch).flatMap (fileLines colours) ++ successLine colours (summary batch)

/-! ### JSON -/

def fileField : Text := "file".toList

def keysField : Text := "keys".toList

def fileMembers (file : FileExtraction) : List (Text × Json.Value) :=
  [(fileField, .string file.path), (keysField, .array (file.records.map Record.toValue))]

def fileValue (file : FileExtraction) : Json.Value := .object (fileMembers file)

def json (batch : Batch) : Text :=
  line (Json.Value.pretty 0 (.array ((filesWithKeys batch).map fileValue)))

/-! ### Diagnostics -/

def warningText (path : Text) (warning : Warning) : Text :=
  path ++ ':' :: decimal warning.line ++ ": ".toList ++ warning.message

def failureText (failure : ReadFailure) : Text :=
  failure.path ++ ": ".toList ++ failure.message

/-- A line with a number of things that went wrong, if there are any. -/
def countLine (colours : Bool) (number : Nat) (what : Text) : Text :=
  if number = 0 then []
  else
    warningLine colours (decimal number ++ ' ' :: what ++ " (use ".toList ++
      paint colours .cyan "-v".toList ++ " for details)".toList)

/-- What went wrong in a batch: each case, or only the number of cases. -/
def diagnostics (colours verbose : Bool) (batch : Batch) : Text :=
  if verbose then
    batch.files.flatMap (fun file =>
      file.warnings.flatMap fun warning => warningLine colours (warningText file.path warning)) ++
      batch.failures.flatMap fun failure => warningLine colours (failureText failure)
  else
    countLine colours batch.warningCount "tag(s) had malformed options".toList ++
      countLine colours batch.failures.length "file(s) could not be read".toList

/-- What a scan had to tell, if all details are asked for. -/
def notices (colours verbose : Bool) (notices : List Notice) : Text :=
  if verbose then notices.flatMap fun notice => warningLine colours notice.message else []

end Report
end KeyHarvest
