import KeyHarvest.Keys.Declared
import KeyHarvest.Keys.Extraction

/-!
# What a tag adds to an extraction

The records and warnings of a single tag of a text, said without a look for the key attribute first
and without an index of the lines.
-/
namespace KeyHarvest

namespace Tag

/-- The keys that the key attribute of a tag declares. -/
def keys (markers : Markers) (tag : Tag Char) : List Text :=
  KeyHarvest.keys (lookup (KeyHarvest.attributes tag.attributes) markers.attr) tag.followingText

/-- What is wrong with the options of a tag. -/
def problem? (markers : Markers) (tag : Tag Char) : Option OptionsError :=
  match lookup (KeyHarvest.attributes tag.attributes) markers.optionAttr with
  | .value options => problemInOptions options
  | _ => none

end Tag

/-- What a tag of a text adds: its keys with the default value of its own options, and a warning if
there are keys and the options cannot be used. -/
def contribution (markers : Markers) (text : Text) (tag : Tag Char) : Extraction :=
  let declared := attributes tag.attributes
  let records := normalize (lookup declared markers.attr) tag.followingText
  let (records, problem) := mergeOptions records declared markers.optionAttr
  { records
    warnings :=
      if records.isEmpty then []
      else (problem.map fun problem =>
        ⟨lineOf text tag.offset, warningMessage tag problem⟩).toList }

/-- Extractions put together in order. -/
def Extraction.concat (parts : List Extraction) : Extraction where
  records := parts.flatMap (·.records)
  warnings := parts.flatMap (·.warnings)

end KeyHarvest
