import KeyHarvest.Keys.Declared
import KeyHarvest.Proofs.KeyPieces
import KeyHarvest.Proofs.Lines
import KeyHarvest.Proofs.Marked
import KeyHarvest.Proofs.Nodes

/-!
# The harvest of a document

What is extracted from a well-formed document is what its nodes declare. A tag is harvested from the
attributes that are read back (`harvest_tag`), and `collect_documentTags` goes through the nodes
with the text before them: its bytes give the offset of the next tag, and its line feeds the line.
-/
namespace KeyHarvest
open CodeUnit

/-! ### Keys -/

theorem dropQualifier_eq (text : Text) :
    dropQualifier text =
      if text.head? = some '[' ∧ ']' ∈ text then trim (text.drop (text.idxOf ']' + 1))
      else text := by
  by_cases closed : IsQualified text
  · obtain ⟨qualifier, rest, rfl, first⟩ := exists_of_isQualified closed
    have place : ('[' :: (qualifier ++ ']' :: rest)).idxOf ']' = qualifier.length + 1 := by
      have other : ('[' == ']') = false := rfl
      rw [List.idxOf_cons, other, cond_false, List.idxOf_append, if_neg first,
        List.idxOf_cons_self, Nat.zero_add]
    rw [dropQualifier_qualified first]
    simp [place]
  · rw [dropQualifier_of_not_isQualified closed]
    exact (if_neg closed).symm

theorem filterMap_key? (texts : List Text) :
    texts.filterMap key? = (texts.map declaredKey).filter (· ≠ []) := by
  induction texts with
  | nil => rfl
  | cons text texts ih =>
    have same : dropQualifier (trim text) = declaredKey text := dropQualifier_eq (trim text)
    by_cases empty : declaredKey text = []
    · simp [key?, same, empty, ih]
    · simp [key?, same, empty, ih]

/-! ### Names -/

theorem lookup_declared (declarations : List Declaration) (name : Text) :
    lookup (declarations.map Declaration.declared) name =
      match declarationOf declarations name with
      | none => .absent
      | some declaration =>
        match declaration.declared.value with
        | none => .noValue
        | some text => .value text := by
  have found : (declarations.map Declaration.declared).find? (·.name = name) =
      (declarationOf declarations name).map Declaration.declared := List.find?_map
  rw [lookup, found]
  cases declarationOf declarations name with
  | none => rfl
  | some declaration =>
    obtain ⟨space, name, spaceBefore, spaceAfter, form⟩ := declaration
    cases form with
    | none => rfl
    | quoted quote value => rfl
    | bare value => rfl

theorem keys_declared (markers : Markers) (declarations : List Declaration)
    (followingText : Text) :
    keys (lookup (declarations.map Declaration.declared) markers.attr) followingText =
      declaredKeys markers declarations followingText := by
  rw [lookup_declared, declaredKeys]
  cases declarationOf declarations markers.attr with
  | none => rfl
  | some declaration =>
    cases value : declaration.declared.value with
    | none =>
      simp only [value, ← filterMap_key?, keys]
      cases found : key? followingText with
      | none => simp [found]
      | some key => simp [found]
    | some text =>
      simp only [value, ← filterMap_key?, keys, pieces_eq_splitOnP]
      rfl

/-! ### Options -/

/-- The member that counts is the last one of its name. -/
theorem member?_eq_getLast? (members : List (Text × Json.Value)) (name : Text) :
    Json.member? members name = (members.filter (·.1 = name)).getLast?.map (·.2) := by
  rw [Json.member?, ← List.head?_filter, List.filter_reverse, List.head?_reverse]

theorem optionsDefault?_eq (options : Text) :
    optionsDefault? options =
      match problemInOptions options with
      | some problem => .error problem
      | none => .ok (defaultInOptions options) := by
  rw [optionsDefault?, problemInOptions, defaultInOptions]
  cases Json.parse options with
  | error problem => rfl
  | ok value =>
    cases value with
    | object members =>
      simp only [member?_eq_getLast?]
      cases (members.filter (·.1 = Record.defaultValueField)).getLast? with
      | none => rfl
      | some member =>
        obtain ⟨name, value⟩ := member
        cases value <;> rfl
    | _ => rfl

theorem defaultInOptions_of_problem {options : Text} {problem : OptionsError}
    (found : problemInOptions options = some problem) : defaultInOptions options = none := by
  rw [problemInOptions] at found
  rw [defaultInOptions]
  split at found
  next error equal => rw [equal]
  next members equal => cases found
  next value other equal =>
    rw [equal]
    cases value with
    | object members => exact absurd rfl (other members)
    | _ => rfl

theorem defaultValue?_declared (markers : Markers) (declarations : List Declaration) :
    defaultValue? (declarations.map Declaration.declared) markers.optionAttr =
      match declaredOptions markers declarations with
      | none => .ok none
      | some options => optionsDefault? options := by
  rw [defaultValue?, lookup_declared, declaredOptions]
  cases declarationOf declarations markers.optionAttr with
  | none => rfl
  | some declaration =>
    cases value : declaration.declared.value with
    | none => simp [value]
    | some options => simp [value]

/-! ### Tags -/

theorem harvest_tag {markers : Markers} {tag : Tag Char} {declarations : List Declaration}
    (read : attributes tag.attributes = declarations.map Declaration.declared) :
    harvest markers tag =
      ⟨tag, declaredRecords markers declarations tag.followingText,
        declaredProblem markers declarations tag.followingText⟩ := by
  rw [harvest, read]
  simp only [normalize, keys_declared, declaredRecords, declaredProblem]
  -- Where there are no keys, the options are not read.
  cases declaredKeys markers declarations tag.followingText with
  | nil => rfl
  | cons key keys =>
    simp only [mergeOptions, defaultValue?_declared]
    cases declaredOptions markers declarations with
    | none => rfl
    | some options =>
      simp only [optionsDefault?_eq, Option.bind_some]
      cases problem : problemInOptions options with
      | some problem =>
        -- The records stay as they are, and the problem is kept.
        simp only [defaultInOptions_of_problem problem]
        rfl
      | none =>
        cases defaultInOptions options with
        | none => rfl
        | some value => simp [Record.withDefault, Record.ofKey]

/-! ### Documents -/

theorem countLines_zero (text : Text) : countLines text 0 = 1 := by
  cases text with
  | nil => rfl
  | cons c rest => simp [countLines, countLines.go]

theorem documentTags_tag (offset : Nat) (name ending : Text) (declarations : List Declaration)
    (rest : List Node) :
    documentTags offset ((Node.tag name declarations ending :: rest).map Node.item) =
      ⟨name, renderDeclarations declarations ++ ending, startingText (rest.map Node.item),
        offset⟩ ::
      documentTags (offset + size (Node.tag name declarations ending).item.render)
        (rest.map Node.item) := rfl

/-- The harvest of the nodes behind a text. -/
theorem collect_documentTags (markers : Markers) {nodes : List Node}
    (wellFormed : NodesWellFormed nodes) (before : Text) :
    collect (countLines (before ++ renderNodes nodes))
        ((documentTags (size before) (nodes.map Node.item)).map (harvest markers)) =
      declaredExtraction markers (1 + before.count '\n') nodes := by
  induction nodes generalizing before with
  | nil => rfl
  | cons node rest ih =>
    -- The nodes behind this one stand behind a text that holds it.
    have others := ih wellFormed.2.2 (before ++ node.item.render)
    have whole : before ++ renderNodes (node :: rest) =
        before ++ node.item.render ++ renderNodes rest := by
      rw [List.append_assoc]
      rfl
    rw [size_append, List.count_append, ← Nat.add_assoc, ← whole] at others
    cases node with
    | tag name declarations ending =>
      have line : countLines (before ++ renderNodes (.tag name declarations ending :: rest))
          (size before) = 1 + before.count '\n' := by
        have moved := countLines_append before
          (renderNodes (.tag name declarations ending :: rest)) 0
        rwa [countLines_zero, Nat.add_comm _ 1] at moved
      rw [documentTags_tag, List.map_cons, collect_cons, others,
        harvest_tag (Node.attributes_tag wellFormed.1), Harvest.warnings]
      simp only [line, warningMessage]
      rfl
    | _ => exact others

/-- What is extracted from a document are the records and warnings that its nodes declare. -/
theorem extract_renderNodes (markers : Markers) (nodes : List Node)
    (wellFormed : NodesWellFormed nodes) :
    extract markers (renderNodes nodes) = declaredExtraction markers 1 nodes := by
  have lines : lineAt (lineStarts (renderNodes nodes)) = countLines (renderNodes nodes) :=
    funext (lineAt_lineStarts (renderNodes nodes))
  have scanned : tags (renderNodes nodes) = documentTags 0 (nodes.map Node.item) :=
    Scanner.tags_document (documentWellFormed_map wellFormed) 0
  rw [extract, lines, scanned]
  simp only [collect_marked]
  exact collect_documentTags markers wellFormed []

/-- Three tags with keys, of which the last has options that cannot be used. -/
def keyedDocument : List Node :=
  [.comment " <p data-i18n=old> ".toList,
    .tag "p".toList
      [⟨" ".toList, "title".toList, [], [], .quoted '\'' "a > \"b".toList⟩,
        ⟨[], "data-i18n".toList, " ".toList, "\n".toList, .quoted '"' "[x] intro;; [y]end".toList⟩,
        ⟨" ".toList, "data-i18n-options".toList, [], [],
          .quoted '\'' "\x7b\"defaultValue\":\"z\",\"defaultValue\":\"y > z\"\x7d".toList⟩,
        ⟨" ".toList, "data-i18n".toList, [], [], .bare "other".toList⟩] [],
    .text "é <".toList,
    .tag "b".toList [⟨"\n".toList, "data-i18n".toList, [], [], .none⟩] "/".toList,
    .text "[t] Save ".toList,
    .tag "i".toList
      [⟨" ".toList, "data-i18n".toList, [], [], .bare "k".toList⟩,
        ⟨" ".toList, "data-i18n-options".toList, [], [], .bare "[]".toList⟩] " ".toList,
    .closing "p".toList]

theorem extract_keyedDocument :
    NodesWellFormed keyedDocument ∧
      extract .default (renderNodes keyedDocument) =
        ⟨[⟨"intro".toList, some "y > z".toList⟩, ⟨"end".toList, some "y > z".toList⟩,
            ⟨"Save".toList, none⟩, ⟨"k".toList, none⟩],
          [⟨3, "<i> options must be a JSON object".toList⟩]⟩ :=
  ⟨by decide, (extract_renderNodes .default keyedDocument (by decide)).trans (by decide +kernel)⟩

end KeyHarvest
