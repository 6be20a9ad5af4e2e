import KeyHarvest.Keys.Extraction
import KeyHarvest.Markup.Node

/-!
# What a document declares

The records and warnings of a document, said of its nodes: neither text is scanned nor an attribute
looked for in it.
-/
namespace KeyHarvest

/-- The key in a text, which is empty where there is none: trimmed, and without the closed qualifier
at its start. -/
def declaredKey (text : Text) : Text :=
  let trimmed := trim text
  if trimmed.head? = some '[' ∧ ']' ∈ trimmed then trim (trimmed.drop (trimmed.idxOf ']' + 1))
  else trimmed

def declarationOf (declarations : List Declaration) (name : Text) : Option Declaration :=
  declarations.find? (·.name = name)

/-- The keys that a tag declares, given the text behind it: that text is the key of a name that
stands alone, and a value is cut at its semicolons. -/
def declaredKeys (markers : Markers) (declarations : List Declaration) (followingText : Text) :
    List Text :=
  match declarationOf declarations markers.attr with
  | none => []
  | some declaration =>
    let texts :=
      match declaration.declared.value with
      | none => [followingText]
      | some value => value.splitOn ';'
    (texts.map declaredKey).filter (· ≠ [])

def declaredOptions (markers : Markers) (declarations : List Declaration) : Option Text :=
  (declarationOf declarations markers.optionAttr).bind (·.declared.value)

/-- The default value in the text of options: the last of the members of that name counts. -/
def defaultInOptions (options : Text) : Option Text :=
  match Json.parse options with
  | .ok (.object members) =>
    match (members.filter (·.1 = Record.defaultValueField)).getLast? with
    | some (_, .string value) => some value
    | _ => none
  | _ => none

def problemInOptions (options : Text) : Option OptionsError :=
  match Json.parse options with
  | .error problem => some (.invalidJson options problem)
  | .ok (.object _) => none
  | .ok _ => some .notAnObject

/-- The records that a tag declares; all of them get the default value of its options. -/
def declaredRecords (markers : Markers) (declarations : List Declaration) (followingText : Text) :
    List Record :=
  (declaredKeys markers declarations followingText).map fun key =>
    ⟨key, (declaredOptions markers declarations).bind defaultInOptions⟩

/-- What is wrong with the options of a tag. Without keys they do not matter. -/
def declaredProblem (markers : Markers) (declarations : List Declaration) (followingText : Text) :
    Option OptionsError :=
  if declaredKeys markers declarations followingText = [] then none
  else (declaredOptions markers declarations).bind problemInOptions

/-- The records and warnings of a document whose first node starts in a line. -/
def declaredExtraction (markers : Markers) (line : Nat) : List Node → Extraction
  | [] => ⟨[], []⟩
  | node :: rest =>
    let others := declaredExtraction markers (line + node.item.render.count '\n') rest
    match node with
    | .tag name declarations _ =>
      let followingText := startingText (rest.map Node.item)
      ⟨declaredRecords markers declarations followingText ++ others.records,
        ((declaredProblem markers declarations followingText).map fun problem =>
          ⟨line, '<' :: (name ++ "> ".toList ++ problem.message)⟩).toList ++ others.warnings⟩
    | _ => others

end KeyHarvest
