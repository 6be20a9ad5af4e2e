import KeyHarvest.Buffer.Attributes
import KeyHarvest.Buffer.Tags
import KeyHarvest.Keys.Extraction

/-!
# Extraction from a buffer

The extraction of keys with every access to the text, to the attribute texts of its tags and to the
pieces of their values checked.
-/
namespace KeyHarvest
open CodeUnit

/-- The number of bytes of the closed qualifier at the start of a text. -/
def qualifierEnd? : Text → Option Nat
  | '[' :: rest => (splitAt? (· == ']') rest).map fun (inner, _) => size ('[' :: (inner ++ [']']))
  | _ => none

namespace Buffer

def key? (piece : Text) : Checked (Option Text) := do
  let candidate := trim piece
  let key ←
    match qualifierEnd? candidate with
    | some stop => do
      let rest ← (of candidate).slice stop (size candidate)
      pure (trim rest)
    | none => pure candidate
  return if key.isEmpty then none else some key

def keys (found : Lookup Char) (followingText : Text) : Checked (List Text) :=
  match found with
  | .absent => return []
  | .value text => do
    let keys ← (pieces isKeySeparator text).mapM key?
    return keys.filterMap id
  | .noValue => do
    let key ← key? followingText
    return key.toList

def harvest (markers : Markers) (tag : Tag Char) : Checked Harvest := do
  let declared ← (of tag.attributes).attributes 0
  let keys ← keys (lookup declared markers.attr) tag.followingText
  let records := keys.map .ofKey
  if records.isEmpty then return ⟨tag, [], none⟩
  else
    let (records, problem) := mergeOptions records declared markers.optionAttr
    return ⟨tag, records, problem⟩

def extract (markers : Markers) (buffer : Buffer) : Checked Extraction := do
  let tags ← buffer.tags 0
  let marked := tags.filter fun tag => contains markers.attr tag.attributes
  let harvests ← marked.mapM (harvest markers)
  return collect (lineAt (lineStarts buffer.text)) harvests

end Buffer
end KeyHarvest
