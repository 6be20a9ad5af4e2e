import KeyHarvest.Proofs.Contributions
import KeyHarvest.Proofs.RoundTrip

/-!
# Documents in front of a text

A well-formed document keeps to itself: whatever stands behind it, even markup that is never
complete, its own tags are read as before, and what stands behind is read as if it stood alone. The
segments of the document are segments in front of those of the text behind it, so the tags of the
whole are those of both parts. The tags of the second part are moved by the bytes of the first one,
and their lines by its line feeds.
-/
namespace KeyHarvest
open CodeUnit

/-! ### Tags of two parts -/

def Tag.moved (shift : Nat) (tag : Tag Char) : Tag Char :=
  { tag with offset := shift + tag.offset }

theorem segmentTags_add (shift offset : Nat) (segments : List Segment) :
    segmentTags (shift + offset) segments = (segmentTags offset segments).map (.moved shift) := by
  induction segments generalizing offset with
  | nil => rfl
  | cons segment others ih =>
    simp only [segmentTags, Nat.add_assoc, ih]
    cases segment with
    | construct written => cases written <;> rfl
    | _ => rfl

/-- The tags of two parts are those of the first and those of the second, but for the text behind
the last tag of the first, which may go on in the second. -/
theorem map_segmentTags_append {β : Type} {report : Tag Char → β} {left : List Segment}
    (steady : ∀ name attributes, left.getLast? = some (.construct (.tag name attributes)) →
      ∀ offset before after,
        report ⟨name, attributes, before, offset⟩ = report ⟨name, attributes, after, offset⟩)
    (right : List Segment) (offset : Nat) :
    (segmentTags offset (left ++ right)).map report =
      (segmentTags offset left).map report ++
        (segmentTags (offset + size (renderSegments left)) right).map report := by
  induction left generalizing offset with
  | nil => rfl
  | cons segment others ih =>
    have later := ih (fun name attributes last => steady name attributes (by
      rw [List.getLast?_cons, last]
      rfl)) (offset + size segment.render)
    rw [Nat.add_assoc, ← size_append, ← renderSegments_cons] at later
    cases segment with
    | construct written =>
      cases written with
      | tag name attributes =>
        -- If the tag is the last one of the first part, the text behind it does not count.
        have first : report ⟨name, attributes, leadingText (others ++ right), offset⟩ =
            report ⟨name, attributes, leadingText others, offset⟩ := by
          cases others with
          | nil => exact steady name attributes rfl offset _ _
          | cons next others => cases next <;> rfl
        simp only [List.cons_append, segmentTags, List.map_cons, first, later]
      | _ => exact later
    | _ => exact later

/-! ### Extractions of two parts -/

/-- The extraction with its warnings moved by a number of lines. -/
def Extraction.moved (lines : Nat) (extraction : Extraction) : Extraction :=
  { extraction with
    warnings := extraction.warnings.map fun warning =>
      { warning with line := warning.line + lines } }

theorem Extraction.concat_append (left right : List Extraction) :
    concat (left ++ right) =
      ⟨(concat left).records ++ (concat right).records,
        (concat left).warnings ++ (concat right).warnings⟩ := by
  simp only [concat, List.flatMap_append]

theorem Extraction.concat_moved (lines : Nat) (parts : List Extraction) :
    concat (parts.map (moved lines)) = (concat parts).moved lines := by
  simp only [concat, moved, List.flatMap_map, List.map_flatMap]

/-- A text counts for what a tag adds by its lines only. -/
theorem contribution_congr {left right : Text} {tag : Tag Char} (markers : Markers)
    (same : lineOf left tag.offset = lineOf right tag.offset) :
    contribution markers left tag = contribution markers right tag := by
  rw [contribution, contribution, same]

theorem contribution_moved (markers : Markers) (before after : Text) (tag : Tag Char) :
    contribution markers (before ++ after) (tag.moved (size before)) =
      (contribution markers after tag).moved (before.count '\n') := by
  have line := lineOf_append before after tag.offset
  rw [Nat.add_comm (before.count '\n')] at line
  rw [contribution, contribution, Extraction.moved]
  dsimp only [Tag.moved]
  rw [line]
  generalize (mergeOptions _ _ _).1 = records
  generalize (mergeOptions _ _ _).2 = problem
  split
  · rfl
  · cases problem with
    | none => rfl
    | some problem => rfl

theorem keys_of_ne_noValue {found : Lookup Char} (valued : found ≠ .noValue)
    (before after : Text) : keys found before = keys found after := by
  cases found with
  | noValue => exact absurd rfl valued
  | _ => rfl

theorem contribution_of_ne_noValue {markers : Markers} {declared : Text}
    (valued : lookup (attributes declared) markers.attr ≠ .noValue)
    (text name before after : Text) (offset : Nat) :
    contribution markers text ⟨name, declared, before, offset⟩ =
      contribution markers text ⟨name, declared, after, offset⟩ := by
  have same := congrArg (List.map Record.ofKey) (keys_of_ne_noValue valued before after)
  rw [← normalize, ← normalize] at same
  rw [contribution, contribution]
  dsimp only
  rw [same]
  rfl

/-! ### Tags of a document and of a text behind it -/

/-- What the tags of a text add stays the same if more text stands behind. -/
theorem map_contribution_front (markers : Markers) (before after : Text) :
    (tags before).map (contribution markers (before ++ after)) =
      (tags before).map (contribution markers before) := by
  refine List.map_congr_left fun tag member => contribution_congr markers ?_
  obtain ⟨front, behind, rfl, offset, -⟩ := exists_of_mem_tags member
  apply lineOf_append_of_le
  rw [← offset, size_append]
  exact Nat.le_add_right _ _

/-- What the tags of a text add is moved by the lines of the text in front. -/
theorem map_contribution_behind (markers : Markers) (before after : Text) :
    ((tags after).map (.moved (size before))).map (contribution markers (before ++ after)) =
      ((tags after).map (contribution markers after)).map (.moved (before.count '\n')) := by
  rw [List.map_map, List.map_map]
  exact List.map_congr_left fun tag _ => contribution_moved markers before after tag

/-- The item does not take the text behind it for a key. -/
def Item.Closes (markers : Markers) : Item → Prop
  | .text _ => False
  | .tag _ declared => lookup (attributes declared) markers.attr ≠ .noValue
  | _ => True

instance (markers : Markers) : (item : Item) → Decidable (item.Closes markers)
  | .text _ => inferInstanceAs (Decidable False)
  | .tag _ declared =>
    inferInstanceAs (Decidable (lookup (attributes declared) markers.attr ≠ .noValue))
  | .closing _ | .instruction _ | .declaration _ | .comment _ => inferInstanceAs (Decidable True)

/-- The text behind the last tag does not count if the last item closes. -/
theorem steady_of_closes {markers : Markers} {items : List Item}
    (closes : ∀ last ∈ items.getLast?, last.Closes markers) (text : Text) :
    ∀ name declared,
      (items.map Item.segment).getLast? = some (.construct (.tag name declared)) →
        ∀ offset before after,
          contribution markers text ⟨name, declared, before, offset⟩ =
            contribution markers text ⟨name, declared, after, offset⟩ := by
  intro name declared last offset before after
  rw [List.getLast?_map, Option.map_eq_some_iff] at last
  obtain ⟨item, member, equal⟩ := last
  have closed := closes item member
  cases item with
  | tag name declared =>
    cases equal
    exact contribution_of_ne_noValue closed text _ before after offset
  | _ => cases equal

theorem map_tags_append {markers : Markers} {items : List Item}
    (wellFormed : DocumentWellFormed items) (closes : ∀ last ∈ items.getLast?, last.Closes markers)
    (text whole : Text) :
    (tags (renderDocument items ++ text)).map (contribution markers whole) =
      (tags (renderDocument items)).map (contribution markers whole) ++
        ((tags text).map (.moved (size (renderDocument items)))).map
          (contribution markers whole) := by
  obtain ⟨segments, rfl, later⟩ := exists_segments text
  have front := renderSegments_map items
  have ends : ∀ last ∈ items.getLast?, last.isText = true → segments = [] := by
    intro last member textual
    cases last with
    | text content => exact (closes _ member).elim
    | _ => cases textual
  have joined : renderSegments (items.map Item.segment ++ segments) =
      renderDocument items ++ renderSegments segments := by
    rw [← front]
    exact List.flatMap_append
  have parts := map_segmentTags_append (steady_of_closes closes whole) segments 0
  have moved := segmentTags_add (size (renderDocument items)) 0 segments
  rw [front, Nat.zero_add] at parts
  rw [Nat.add_zero] at moved
  -- The scan of each of the three texts reports the tags among its segments.
  have scanned := Scanner.tags_segments (segmentsWellFormed_append wellFormed later ends) 0
  have scannedFront := Scanner.tags_segments (segmentsWellFormed_map wellFormed) 0
  have scannedBehind := Scanner.tags_segments later 0
  rw [joined] at scanned
  rw [front] at scannedFront
  rw [tags, tags, tags, Scanner.start, Scanner.start, Scanner.start, scanned, scannedFront,
    scannedBehind, parts, moved]

/-- From a well-formed document in front of any text whatever, and from the text, is extracted what
is extracted from each by itself; the lines of the text are moved by the line feeds of the
document. -/
theorem extract_renderDocument_append (markers : Markers) (items : List Item) (text : Text)
    (wellFormed : DocumentWellFormed items) (closes : ∀ last ∈ items.getLast?, last.Closes markers) :
    (extract markers (renderDocument items ++ text)).records =
        (extract markers (renderDocument items)).records ++ (extract markers text).records ∧
      (extract markers (renderDocument items ++ text)).warnings =
        (extract markers (renderDocument items)).warnings ++
          (extract markers text).warnings.map fun warning =>
            { warning with line := warning.line + (renderDocument items).count '\n' } := by
  have parts := map_tags_append wellFormed closes text (renderDocument items ++ text)
  rw [map_contribution_front, map_contribution_behind] at parts
  rw [extract_eq_concat, parts, Extraction.concat_append, Extraction.concat_moved,
    ← extract_eq_concat, ← extract_eq_concat]
  exact ⟨rfl, rfl⟩

/-- A document of two lines whose last item is a tag with a valued key attribute. -/
def closedDocument : List Item :=
  [.tag "p".toList " data-i18n=\"a; b\" data-i18n-options=[]".toList, .text "1 < 2\n".toList,
    .tag "i".toList "\tdata-i18n='c > d'".toList]

/-- A text with quotes that do not balance, and with a comment that never ends. -/
def brokenText : Text :=
  "it's\n<b data-i18n=k data-i18n-options=5><b '><i data-i18n=l><!-- <p data-i18n=m>".toList

theorem extract_closedDocument_append :
    DocumentWellFormed closedDocument ∧ (∀ last ∈ closedDocument.getLast?, last.Closes .default) ∧
      (extract .default (renderDocument closedDocument ++ brokenText)).records =
        ["a".toList, "b".toList, "c > d".toList, "k".toList, "l".toList].map .ofKey ∧
      (extract .default (renderDocument closedDocument ++ brokenText)).warnings =
        [⟨1, "<p> options must be a JSON object".toList⟩,
          ⟨3, "<b> options must be a JSON object".toList⟩] := by
  have wellFormed : DocumentWellFormed closedDocument := by decide
  have closes : ∀ last ∈ closedDocument.getLast?, last.Closes .default := by decide +kernel
  obtain ⟨records, warnings⟩ :=
    extract_renderDocument_append .default closedDocument brokenText wellFormed closes
  have front : extract .default (renderDocument closedDocument) =
      ⟨["a".toList, "b".toList, "c > d".toList].map .ofKey,
        [⟨1, "<p> options must be a JSON object".toList⟩]⟩ := by decide +kernel
  have behind : extract .default brokenText =
      ⟨["k".toList, "l".toList].map .ofKey, [⟨2, "<b> options must be a JSON object".toList⟩]⟩ := by
    decide +kernel
  rw [front, behind] at records warnings
  exact ⟨wellFormed, closes, records, warnings⟩

end KeyHarvest
