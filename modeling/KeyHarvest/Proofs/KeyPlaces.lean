import KeyHarvest.Proofs.Contributions
import KeyHarvest.Proofs.Parts
import KeyHarvest.Proofs.Segment

/-!
# Where the keys of a text stand

No key is made up: each is a part of the text, and the parts come in the order of the records and
do not overlap. The keys of a tag stand in its attribute text or in the text behind it
(`scattered_keys`). Both belong to this tag alone, since the text behind a tag ends where the next
construct starts, and so the keys of all tags are scattered in the segments of the text.
-/
namespace KeyHarvest
open CodeUnit

/-! ### Keys in a piece -/

/-- What is left of a text without its blanks and its qualifier is a trimmed part of it. -/
theorem dropQualifier_trim (text : Text) :
    ∃ part, part <:+: text ∧ dropQualifier (trim text) = trim part := by
  rw [dropQualifier_eq]
  split
  · refine ⟨(trim text).drop ((trim text).idxOf ']' + 1), ?_, rfl⟩
    exact (List.drop_suffix _ _).isInfix.trans (trim_isInfix text)
  · exact ⟨text, List.infix_rfl, rfl⟩

theorem exists_of_key? {piece key : Text} (found : key? piece = some key) :
    key ≠ [] ∧ ∃ part, part <:+: piece ∧ key = trim part := by
  rw [key?] at found
  obtain ⟨part, stands, equal⟩ := dropQualifier_trim piece
  rw [equal] at found
  split at found
  · cases found
  next some =>
    cases found
    exact ⟨by simpa using some, part, stands, rfl⟩

theorem infix_of_key? {piece key : Text} (found : key? piece = some key) : key <:+: piece := by
  obtain ⟨-, part, stands, rfl⟩ := exists_of_key? found
  exact (trim_isInfix part).trans stands

/-- The text is not empty, and neither its first nor its last character is blank. -/
def IsKey (text : Text) : Prop :=
  text ≠ [] ∧ (∀ c ∈ text.head?, isBlank c = false) ∧ ∀ c ∈ text.getLast?, isBlank c = false

theorem isKey_of_key? {piece key : Text} (found : key? piece = some key) : IsKey key := by
  obtain ⟨nonempty, part, -, rfl⟩ := exists_of_key? found
  exact ⟨nonempty, isBlank_head_trim part, isBlank_getLast_trim part⟩

/-! ### Keys of a tag -/

theorem isKey_of_mem_keys {found : Lookup Char} {followingText key : Text}
    (member : key ∈ keys found followingText) : IsKey key := by
  cases found with
  | absent => cases member
  | noValue => exact isKey_of_key? (Option.mem_toList.mp member)
  | value text =>
    obtain ⟨piece, -, equal⟩ := List.mem_filterMap.mp member
    exact isKey_of_key? equal

/-- The keys of a value are cut at its semicolons. -/
theorem not_separator_of_mem_keys {value followingText key : Text}
    (member : key ∈ keys (.value value) followingText) : ';' ∉ key := by
  obtain ⟨piece, cut, found⟩ := List.mem_filterMap.mp member
  intro inside
  have stands := (infix_of_key? found).subset inside
  cases not_separator_of_mem_pieces cut ';' stands

theorem value_infix_of_lookup {text name value : Text}
    (found : lookup (attributes text) name = .value value) : value <:+: text := by
  rw [lookup] at found
  split at found
  next declared text equal =>
    cases found
    exact (standsIn_of_mem_attributes (List.mem_of_find?_eq_some equal)).2 value rfl
  · cases found
  · cases found

/-- The keys of a tag stand in its markup or in the text behind it. -/
theorem scattered_keys (markers : Markers) (tag : Tag Char) :
    Scattered (tag.keys markers)
      ((Construct.tag tag.name tag.attributes).render ++ tag.followingText) := by
  rw [Tag.keys]
  cases found : lookup (attributes tag.attributes) markers.attr with
  | absent => exact .nil _
  | noValue =>
    have stands := (Scattered.singleton tag.followingText).filterMap
      fun piece key => infix_of_key?
    have whole := stands.behind (Construct.tag tag.name tag.attributes).render
    cases key : key? tag.followingText with
    | none => simpa [keys, key] using whole
    | some key => simpa [keys, key] using whole
  | value text =>
    have stands := (Scattered.pieces isKeySeparator text).filterMap
      fun piece key => infix_of_key?
    have inside : tag.attributes <:+: (Construct.tag tag.name tag.attributes).render :=
      ⟨'<' :: tag.name, ['>'], rfl⟩
    have whole := (stands.mono ((value_infix_of_lookup found).trans inside)).append
      (.nil tag.followingText)
    rwa [List.append_nil] at whole

/-! ### Keys of a text -/

/-- The segments behind the text at their start. -/
def behindText : List Segment → List Segment
  | .text _ :: others => others
  | segments => segments

theorem renderSegments_behindText (segments : List Segment) :
    renderSegments segments = leadingText segments ++ renderSegments (behindText segments) := by
  cases segments with
  | nil => rfl
  | cons segment others => cases segment <;> rfl

/-- The keys of all tags stand behind the text at the start, which may hold a key of the tag in
front of it. -/
theorem scattered_segmentTags (markers : Markers) (segments : List Segment) (offset : Nat) :
    Scattered ((segmentTags offset segments).flatMap (Tag.keys markers))
      (renderSegments (behindText segments)) := by
  induction segments generalizing offset with
  | nil => exact .nil _
  | cons segment others ih =>
    have later := ih (offset + size segment.render)
    have behind := later.behind (segment.render ++ leadingText others)
    rw [List.append_assoc, ← renderSegments_behindText] at behind
    cases segment with
    | text content =>
      -- The text at the start is left out, and all that is behind it stays.
      have whole := later.behind (leadingText others)
      rwa [← renderSegments_behindText] at whole
    | rest remainder => exact behind
    | construct written =>
      cases written with
      | tag name declared =>
        -- The tag takes its own markup and the text behind it, and the others what is behind both.
        have first := scattered_keys markers ⟨name, declared, leadingText others, offset⟩
        have whole := first.append later
        rw [List.append_assoc, ← renderSegments_behindText] at whole
        exact whole
      | _ => exact behind

theorem scattered_tags (markers : Markers) (text : Text) :
    Scattered ((tags text).flatMap (Tag.keys markers)) text := by
  obtain ⟨segments, rfl, wellFormed⟩ := exists_segments text
  have scattered := scattered_segmentTags markers segments 0
  have whole := scattered.behind (leadingText segments)
  rw [← renderSegments_behindText] at whole
  rwa [tags, Scanner.start, Scanner.tags_segments wellFormed]

/-! ### Keys of the records -/

theorem contribution_keys (markers : Markers) (text : Text) (tag : Tag Char) :
    (contribution markers text tag).records.map (·.key) = tag.keys markers := by
  rw [contribution]
  dsimp only
  rw [mergeOptions_keys, normalize_keys]
  rfl

theorem extract_keys (markers : Markers) (text : Text) :
    (extract markers text).records.map (·.key) = (tags text).flatMap (Tag.keys markers) := by
  rw [extract_eq_concat, Extraction.concat]
  simp only [List.flatMap_map, List.map_flatMap, contribution_keys]

theorem isKey_of_mem_records {markers : Markers} {text : Text} {record : Record}
    (member : record ∈ (extract markers text).records) : IsKey record.key := by
  have inside := List.mem_map_of_mem (f := (·.key)) member
  rw [extract_keys] at inside
  obtain ⟨tag, -, declared⟩ := List.mem_flatMap.mp inside
  exact isKey_of_mem_keys declared

/-- The keys of the records are the parts of the text in ranges of its bytes that come one behind
the other. No key is empty or starts or ends with a blank. The keys come from the tags of the text
in order, and those from a value hold no semicolon. -/
theorem exists_ranges_of_keys (markers : Markers) (text : Text) :
    (∃ ranges : List ByteRange,
      ranges.map (Buffer.of text).part =
        (extract markers text).records.map (fun record => .ok record.key) ∧
      ranges.Pairwise (fun left right => left.stop ≤ right.start) ∧
      ∀ range ∈ ranges, range.start < range.stop) ∧
    (∀ record ∈ (extract markers text).records, IsKey record.key) ∧
    (extract markers text).records.map (·.key) = (tags text).flatMap (Tag.keys markers) ∧
    ∀ tag ∈ tags text, ∀ value, lookup (attributes tag.attributes) markers.attr = .value value →
      ∀ key ∈ tag.keys markers, ';' ∉ key := by
  refine ⟨?_, fun record member => isKey_of_mem_records member, extract_keys markers text, ?_⟩
  · have scattered := scattered_tags markers text
    rw [← extract_keys] at scattered
    have filled : ∀ key ∈ (extract markers text).records.map (·.key), key ≠ [] := by
      intro key member
      obtain ⟨record, inside, rfl⟩ := List.mem_map.mp member
      exact (isKey_of_mem_records inside).1
    have whole : (Buffer.of text).text = [] ++ text := rfl
    obtain ⟨ranges, cut, apart, bounds⟩ := scattered.exists_ranges filled whole
    rw [List.map_map] at cut
    exact ⟨ranges, cut, apart, fun range member => (bounds range member).2⟩
  · intro tag _ value found key member
    rw [Tag.keys, found] at member
    exact not_separator_of_mem_keys member

/-- Two keys in a value and one behind a tag, with qualifiers, blanks and markup that is broken. -/
def spreadKeys : Text :=
  "é<p data-i18n='[t] b;;\tc'>;<<i '><u data-i18n> [x; d <!-- <b data-i18n=k>".toList

theorem exists_ranges_of_spreadKeys :
    ∃ ranges : List ByteRange,
      ranges.map (Buffer.of spreadKeys).part = [.ok ['b'], .ok ['c'], .ok "[x; d".toList] ∧
      ranges.Pairwise (fun left right => left.stop ≤ right.start) ∧
      ∀ range ∈ ranges, range.start < range.stop := by
  have extracted : (extract .default spreadKeys).records =
      [⟨['b'], none⟩, ⟨['c'], none⟩, ⟨"[x; d".toList, none⟩] := by decide +kernel
  have places := (exists_ranges_of_keys .default spreadKeys).1
  rwa [extracted] at places

end KeyHarvest
