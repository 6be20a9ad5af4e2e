import KeyHarvest.Keys.Options

/-!
# Merging options again and again

Options of several tags, or of several attributes of one tag, may be merged into the same records
one after the other. What a single merging comes to is said here of the attributes alone:
`Merging.ComesTo` has a case for each thing that may stand under the name of the options.
-/
namespace KeyHarvest

/-- A merging of options: the attributes of a tag, and the name of its options attribute. -/
structure Merging where
  declared : List (Attribute Char)
  optionAttr : Text
deriving DecidableEq, Repr

/-- Merges options one after the other. Gives the records after the last merging, and for each
merging what was wrong with its options. -/
def mergeAll (records : List Record) : List Merging → List Record × List (Option OptionsError)
  | [] => (records, [])
  | merging :: others =>
    let (records, problem) := mergeOptions records merging.declared merging.optionAttr
    let (records, problems) := mergeAll records others
    (records, problem :: problems)

/-- The first attribute of this name is declared with this value, or without one. -/
def DeclaredFirst (declared : List (Attribute Char)) (name : Text) (value : Option Text) : Prop :=
  ∃ before after, declared = before ++ ⟨name, value⟩ :: after ∧
    ∀ other ∈ before, other.name ≠ name

/-- The last member of this name has this value. -/
def Json.MemberLast (members : List (Text × Value)) (name : Text) (value : Value) : Prop :=
  ∃ before after, members = before ++ (name, value) :: after ∧ ∀ other ∈ after, other.1 ≠ name

/-- What a merging comes to: a problem, no default value, or a default value for all records. -/
inductive Merging.ComesTo (merging : Merging) : Except OptionsError (Option Text) → Prop where
  | absent (missing : ∀ declared ∈ merging.declared, declared.name ≠ merging.optionAttr) :
    ComesTo merging (.ok none)
  | noValue (first : DeclaredFirst merging.declared merging.optionAttr none) :
    ComesTo merging (.ok none)
  | invalidJson {options : Text} {problem : Json.Error}
    (first : DeclaredFirst merging.declared merging.optionAttr (some options))
    (refused : Json.parse options = .error problem) :
    ComesTo merging (.error (.invalidJson options problem))
  | notAnObject {options : Text} {value : Json.Value}
    (first : DeclaredFirst merging.declared merging.optionAttr (some options))
    (read : Json.parse options = .ok value) (other : ∀ members, value ≠ .object members) :
    ComesTo merging (.error .notAnObject)
  | noString {options : Text} {members : List (Text × Json.Value)}
    (first : DeclaredFirst merging.declared merging.optionAttr (some options))
    (read : Json.parse options = .ok (.object members))
    (other : ∀ value, ¬ Json.MemberLast members Record.defaultValueField (.string value)) :
    ComesTo merging (.ok none)
  | string {options value : Text} {members : List (Text × Json.Value)}
    (first : DeclaredFirst merging.declared merging.optionAttr (some options))
    (read : Json.parse options = .ok (.object members))
    (last : Json.MemberLast members Record.defaultValueField (.string value)) :
    ComesTo merging (.ok (some value))

end KeyHarvest
