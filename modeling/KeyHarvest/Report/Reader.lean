import KeyHarvest.Report

/-!
# Reading reports back

A JSON report is a list of files, each an object with the path of the file and the list of its
records. `readFiles` reads such a list; the records are read by their own reader, `Record.read`.
-/
namespace KeyHarvest.Report

open Json

structure FileFields where
  file : Option Text
  keys : Option (List Record)

def readFileMember : MemberReader FileFields := fun name fields text =>
  if name = fileField then do
    let (file, rest) ← readField name fields.file readText text
    return ({ fields with file }, rest)
  else if name = keysField then do
    let (keys, rest) ← readField name fields.keys (readList Record.read) text
    return ({ fields with keys }, rest)
  else do return (fields, ← skipValue (← readColon text))

/-- The path and the records of a file of which all members were read. -/
def completeFile (fields : FileFields) (rest : Text) : Except Error ((Text × List Record) × Text) :=
  match fields.file, fields.keys with
  | some file, some keys => .ok ((file, keys), rest)
  | none, _ => .error (.before (.missingField fileField) rest)
  | _, none => .error (.before (.missingField keysField) rest)

def readFile : Reader (Text × List Record) := fun text =>
  match skipGaps text with
  | [] => .error (.before .endInValue [])
  | '\x7b' :: rest => do
    let (fields, rest) ← Json.readMembers readFileMember ⟨none, none⟩ rest
    completeFile fields rest
  | next => .error (wrongType "a file with its keys".toList next)

def readFiles : Reader (List (Text × List Record)) := readList readFile

end KeyHarvest.Report
