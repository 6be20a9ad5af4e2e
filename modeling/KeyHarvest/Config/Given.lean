import KeyHarvest.Config.Basic

/-!
# Settings that are given

A configuration does not have to give all six settings. `Config.Given` holds those that it gives,
`Config.Given.complete` adds the defaults of the others, and `Config.Given.IsGivenBy` tells which
settings the members of an object give: each of them once or not at all, among any other members.
-/
namespace KeyHarvest.Config
open Json

structure Given where
  attr : Option Text
  optionAttr : Option Text
  includes : Option (List Text)
  ignores : Option (List Text)
  extensions : Option (List Text)
  sourceRoot : Option Text
deriving DecidableEq, Repr

def Given.complete (given : Given) : Config where
  markers := ⟨given.attr.getD default.markers.attr, given.optionAttr.getD default.markers.optionAttr⟩
  includes := given.includes.getD default.includes
  ignores := given.ignores.getD default.ignores
  extensions := given.extensions.getD default.extensions
  sourceRoot := given.sourceRoot.getD default.sourceRoot

def settingNames : List Text :=
  ["attr".toList, "optionAttr".toList, "includes".toList, "ignores".toList, "extensions".toList,
    "sourceRoot".toList]

/-- The members that are known to a configuration, in order. -/
def settings (members : List (Text × Value)) : List (Text × Value) :=
  members.filter (·.1 ∈ settingNames)

/-- The values of all members of a name, in order. -/
def valuesOf (name : Text) (members : List (Text × Value)) : List Value :=
  (members.filter (·.1 = name)).map (·.2)

/-- A setting that is given is the value of the one member of its name, and no member has the name
of another setting. -/
structure Given.IsGivenBy (given : Given) (members : List (Text × Value)) : Prop where
  attr : valuesOf "attr".toList members = (given.attr.map .string).toList
  optionAttr : valuesOf "optionAttr".toList members = (given.optionAttr.map .string).toList
  includes : valuesOf "includes".toList members = (given.includes.map .strings).toList
  ignores : valuesOf "ignores".toList members = (given.ignores.map .strings).toList
  extensions : valuesOf "extensions".toList members = (given.extensions.map .strings).toList
  sourceRoot : valuesOf "sourceRoot".toList members = (given.sourceRoot.map .string).toList

end KeyHarvest.Config
