import KeyHarvest.Keys.Contribution
import KeyHarvest.Proofs.Harvest

/-!
# An extraction is what its tags add

Neither the tags that are passed over nor the index of lines can be told from the result: an
extraction is put together from what each tag adds by itself (`contribution`). A tag that is passed
over adds nothing (`collect_marked`), and the index gives the line that counting gives
(`lineAt_lineStarts`).
-/
namespace KeyHarvest

/-- The index and the look for the key attribute do not change what is extracted. -/
theorem extract_eq_extractPlainly (markers : Markers) (text : Text) :
    extract markers text = extractPlainly markers text := by
  have lines : lineAt (lineStarts text) = countLines text := funext (lineAt_lineStarts text)
  rw [extract, extractPlainly, lines]
  exact collect_marked (countLines text) markers (tags text)

/-! ### What a tag adds -/

theorem collect_eq_flatMap (line : Nat → Nat) (harvests : List Harvest) :
    collect line harvests =
      ⟨harvests.flatMap (·.records), harvests.flatMap (·.warnings line)⟩ := by
  induction harvests with
  | nil => rfl
  | cons harvest harvests ih =>
    rw [collect_cons, ih]
    rfl

/-- Options change no key, whether they can be used or not. -/
theorem mergeOptions_keys (records : List Record) (declared : List (Attribute Char))
    (optionAttr : Text) :
    (mergeOptions records declared optionAttr).1.map (·.key) = records.map (·.key) := by
  rw [mergeOptions]
  split
  · rw [List.map_map]
    rfl
  · rfl
  · rfl

theorem mergeOptions_isEmpty (records : List Record) (declared : List (Attribute Char))
    (optionAttr : Text) :
    (mergeOptions records declared optionAttr).1.isEmpty = records.isEmpty := by
  have keys := congrArg List.isEmpty (mergeOptions_keys records declared optionAttr)
  rwa [List.isEmpty_map, List.isEmpty_map] at keys

theorem contribution_eq (markers : Markers) (text : Text) (tag : Tag Char) :
    contribution markers text tag =
      ⟨(harvest markers tag).records, (harvest markers tag).warnings (lineOf text)⟩ := by
  rw [contribution, harvest]
  dsimp only
  rw [mergeOptions_isEmpty]
  generalize normalize _ _ = records
  cases records with
  | nil =>
    have none := List.isEmpty_iff.mp
      (mergeOptions_isEmpty [] (attributes tag.attributes) markers.optionAttr)
    rw [none]
    rfl
  | cons record records => rfl

/-- What is extracted from a text is put together from what its tags add. -/
theorem extract_eq_concat (markers : Markers) (text : Text) :
    extract markers text = .concat ((tags text).map (contribution markers text)) := by
  rw [extract_eq_extractPlainly, extractPlainly, countLines_eq_lineOf, collect_eq_flatMap,
    Extraction.concat]
  simp only [List.flatMap_map, contribution_eq]

theorem contribution_of_keys_eq_nil {markers : Markers} {tag : Tag Char}
    (empty : tag.keys markers = []) (text : Text) :
    contribution markers text tag = ⟨[], []⟩ := by
  have none : normalize (lookup (attributes tag.attributes) markers.attr) tag.followingText = [] :=
    List.map_eq_nil_iff.mpr empty
  rw [contribution_eq, harvest]
  simp only [none]
  rfl

/-- Options that cannot be used leave the records as they are. -/
theorem mergeOptions_of_problem? {markers : Markers} {tag : Tag Char} {problem : OptionsError}
    (found : tag.problem? markers = some problem) (records : List Record) :
    mergeOptions records (attributes tag.attributes) markers.optionAttr =
      (records, some problem) := by
  rw [Tag.problem?] at found
  cases declared : lookup (attributes tag.attributes) markers.optionAttr with
  | absent =>
    rw [declared] at found
    cases found
  | noValue =>
    rw [declared] at found
    cases found
  | value options =>
    rw [declared] at found
    have unusable : problemInOptions options = some problem := found
    have refused := optionsDefault?_eq options
    rw [unusable] at refused
    rw [mergeOptions, defaultValue?, declared]
    simp only [refused]

theorem contribution_of_problem? {markers : Markers} {tag : Tag Char} {problem : OptionsError}
    (keyed : tag.keys markers ≠ []) (found : tag.problem? markers = some problem) (text : Text) :
    contribution markers text tag =
      ⟨(tag.keys markers).map (⟨·, none⟩),
        [⟨lineOf text tag.offset, warningMessage tag problem⟩]⟩ := by
  rw [contribution, mergeOptions_of_problem? found]
  dsimp only
  rw [if_neg]
  · rfl
  · rw [List.isEmpty_iff]
    exact mt List.map_eq_nil_iff.mp keyed

/-- What is extracted from a text is what its tags add, in order. A tag without keys adds nothing,
and a tag with keys whose options cannot be used adds its keys without a default value, and one
warning. -/
theorem extract_eq_contributions (markers : Markers) (text : Text) :
    extract markers text =
        ⟨(tags text).flatMap fun tag => (contribution markers text tag).records,
          (tags text).flatMap fun tag => (contribution markers text tag).warnings⟩ ∧
      ∀ tag ∈ tags text,
        (tag.keys markers = [] → contribution markers text tag = ⟨[], []⟩) ∧
        ∀ problem, tag.problem? markers = some problem → tag.keys markers ≠ [] →
          contribution markers text tag =
            ⟨(tag.keys markers).map (⟨·, none⟩),
              [⟨lineOf text tag.offset, warningMessage tag problem⟩]⟩ := by
  constructor
  · rw [extract_eq_concat, Extraction.concat]
    simp only [List.flatMap_map]
  · intro tag _
    constructor
    · exact fun empty => contribution_of_keys_eq_nil empty text
    · exact fun problem found keyed => contribution_of_problem? keyed found text

/-- A tag without keys and a tag with keys, both with options that cannot be used. -/
def unusableOptions : List Item :=
  [.tag "b".toList " data-i18n='' data-i18n-options=x".toList, .text "é\n".toList,
    .tag "i".toList " data-i18n='a;b' data-i18n-options=[]".toList]

def keylessTag : Tag Char :=
  ⟨"b".toList, " data-i18n='' data-i18n-options=x".toList, "é\n".toList, 0⟩

def keyedTag : Tag Char :=
  ⟨"i".toList, " data-i18n='a;b' data-i18n-options=[]".toList, [], 39⟩

theorem extract_unusableOptions :
    let text := renderDocument unusableOptions
    let warning := ⟨2, "<i> options must be a JSON object".toList⟩
    tags text = [keylessTag, keyedTag] ∧
      extract .default text = ⟨[⟨['a'], none⟩, ⟨['b'], none⟩], [warning]⟩ ∧
      contribution .default text keylessTag = ⟨[], []⟩ ∧
      contribution .default text keyedTag = ⟨[⟨['a'], none⟩, ⟨['b'], none⟩], [warning]⟩ := by
  intro text warning
  have scanned : tags text = [keylessTag, keyedTag] := by decide +kernel
  obtain ⟨whole, each⟩ := extract_eq_contributions .default text
  have keyless := (each keylessTag (by simp [scanned])).1 (by decide +kernel)
  have keyed := (each keyedTag (by simp [scanned])).2 .notAnObject (by decide +kernel)
    (by decide +kernel)
  have keys : keyedTag.keys .default = [['a'], ['b']] := by decide +kernel
  have line : lineOf text keyedTag.offset = 2 := by decide +kernel
  rw [keys, line] at keyed
  refine ⟨scanned, ?_, keyless, keyed⟩
  rw [whole, scanned]
  simp only [List.flatMap_cons, List.flatMap_nil, keyless, keyed]
  rfl

end KeyHarvest
