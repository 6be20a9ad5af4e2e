import KeyHarvest.Json.Skip
import KeyHarvest.Json.Writer

/-!
# Marker attributes

The names of the two attributes that mark a tag for extraction: one carries the keys, the other the
options. Both have a default.
-/
namespace KeyHarvest

structure Markers where
  /-- The attribute with the keys. -/
  attr : Text
  /-- The attribute with the options. -/
  optionAttr : Text
deriving DecidableEq, Repr

namespace Markers
open Json

def defaultAttr : Text := "data-i18n".toList

def defaultOptionAttr : Text := "data-i18n-options".toList

def default : Markers := ⟨defaultAttr, defaultOptionAttr⟩

def attrField : Text := "attr".toList

def optionAttrField : Text := "optionAttr".toList

def toMembers (markers : Markers) : List (Text × Value) :=
  [(attrField, .string markers.attr), (optionAttrField, .string markers.optionAttr)]

def toValue (markers : Markers) : Value := .object markers.toMembers

structure Fields where
  attr : Option Text
  optionAttr : Option Text

/-- The markers of the fields that were read, the others being the default. -/
def Fields.complete (fields : Fields) : Markers :=
  ⟨fields.attr.getD defaultAttr, fields.optionAttr.getD defaultOptionAttr⟩

def readMember : MemberReader Fields := fun name fields text =>
  if name = attrField then do
    let (attr, rest) ← readField name fields.attr readText text
    return ({ fields with attr }, rest)
  else if name = optionAttrField then do
    let (optionAttr, rest) ← readField name fields.optionAttr readText text
    return ({ fields with optionAttr }, rest)
  else do return (fields, ← skipValue (← readColon text))

def readItems : Reader Markers := fun text => do
  let (attr, rest) ← nextItem? readText true text
  let (optionAttr, rest) ←
    if attr.isSome then nextItem? readText false rest else pure (none, rest)
  return (Fields.complete ⟨attr, optionAttr⟩, ← readListEnd rest)

/-- Reads markers from an object, or from the list of its fields in order. -/
def read : Reader Markers := fun text =>
  match skipGaps text with
  | [] => .error (.before .endInValue [])
  | '[' :: rest => readItems rest
  | '\x7b' :: rest => do
    let (fields, rest) ← Json.readMembers readMember ⟨none, none⟩ rest
    return (fields.complete, rest)
  | next => .error (wrongType "struct LexerOptions".toList next)

end Markers
end KeyHarvest
