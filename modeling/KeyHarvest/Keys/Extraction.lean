import KeyHarvest.Keys.Markers
import KeyHarvest.Keys.Options
import KeyHarvest.Markup.Tag
import KeyHarvest.Text.Lines

/-!
# Extraction of keys from a text

`extract` harvests the records of every tag of a text in order, and a warning for each tag whose
options cannot be used. It reads the attributes of a tag only where the name of the key attribute
occurs in them, and finds lines through an index. `extractPlainly` states the same without either.
-/
namespace KeyHarvest

structure Warning where
  line : Nat
  message : Text
deriving DecidableEq, Repr

structure Extraction where
  records : List Record
  warnings : List Warning
deriving DecidableEq, Repr

structure Harvest where
  tag : Tag Char
  records : List Record
  problem : Option OptionsError
deriving DecidableEq, Repr

/-- Harvests a tag. Options count only where there are keys. -/
def harvest (markers : Markers) (tag : Tag Char) : Harvest :=
  let declared := attributes tag.attributes
  let records := normalize (lookup declared markers.attr) tag.followingText
  if records.isEmpty then ⟨tag, [], none⟩
  else
    let (records, problem) := mergeOptions records declared markers.optionAttr
    ⟨tag, records, problem⟩

def warningMessage (tag : Tag Char) (problem : OptionsError) : Text :=
  '<' :: (tag.name ++ "> ".toList ++ problem.message)

/-- Collects the harvests of a text, given the line of every offset. -/
def collect (line : Nat → Nat) (harvests : List Harvest) : Extraction where
  records := harvests.flatMap (·.records)
  warnings := harvests.filterMap fun harvest =>
    harvest.problem.map fun problem =>
      ⟨line harvest.tag.offset, warningMessage harvest.tag problem⟩

def extract (markers : Markers) (text : Text) : Extraction :=
  let starts := lineStarts text
  let marked := (tags text).filter fun tag => contains markers.attr tag.attributes
  collect (lineAt starts) (marked.map (harvest markers))

/-- Extraction without a look at the attribute text first and without an index of lines. -/
def extractPlainly (markers : Markers) (text : Text) : Extraction :=
  collect (countLines text) ((tags text).map (harvest markers))

end KeyHarvest
