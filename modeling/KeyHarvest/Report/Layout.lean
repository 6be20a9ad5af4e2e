import KeyHarvest.Report
import Mathlib.Algebra.GroupWithZero.Nat

/-!
# The lines of a report

A text report is meant to have one line for the path of a file, one for each of its records and an
empty one behind them, and a last line with the summary. `Report.layout` is the list of these lines,
and `linesOf` the list of the lines that a text has.
-/
namespace KeyHarvest

def isLineFeed (c : Char) : Bool := c == '\n'

/-- The lines of a text, each ended by a line feed. What stands behind the last one is no line. -/
def linesOf (text : Text) : List Text := (pieces isLineFeed text).dropLast

namespace Report

/-- The path of a file with keys, and what is shown for its records. -/
def groups (batch : Batch) : List (Text × List Text) :=
  (filesWithKeys batch).map fun file => (file.path, file.records.map (recordText false))

def groupLines (group : Text × List Text) : List Text := group.1 :: (group.2 ++ [[]])

def layout (batch : Batch) : List Text :=
  (groups batch).flatMap groupLines ++ [successMark ++ ' ' :: summary batch]

/-- No key goes over more than one line. -/
def HasOneLineKeys (batch : Batch) : Prop :=
  ∀ file ∈ batch.files, ∀ record ∈ file.records, '\n' ∉ record.key

instance (batch : Batch) : Decidable (HasOneLineKeys batch) :=
  inferInstanceAs (Decidable (∀ file ∈ batch.files, ∀ record ∈ file.records, _))

/-- How many line feeds the keys of a batch hold. -/
def lineFeedsInKeys (batch : Batch) : Nat :=
  ((batch.files.flatMap (·.records)).map fun record => record.key.count '\n').sum

end Report
end KeyHarvest
