import KeyHarvest.Proofs.Cuts
import KeyHarvest.Report.Layout
import Mathlib.Data.List.Basic

/-!
# The lines of a text report

A report is written line by line from its layout (`Report.text_eq_layout`). A default value and the
summary never hold a line feed, but a key may: a report has the lines of its layout exactly if no
key does, and one line more for every line feed in a key (`Report.linesOf_text`). Then a line that
shows a record is never empty, so that the lines tell the files and their records apart
(`Report.groups_of_layout`).
-/
namespace KeyHarvest

/-! ### Lines -/

theorem length_pieces {α : Type} (separator : α → Bool) (text : List α) :
    (pieces separator text).length = text.countP separator + 1 := by
  have go : ∀ seen, (pieces.go separator seen text).length = text.countP separator + 1 := by
    induction text with
    | nil => exact fun _ => rfl
    | cons a rest ih =>
      intro seen
      rw [pieces.go]
      split
      next separates => rw [List.length_cons, ih, List.countP_cons_of_pos separates]
      next other => rw [ih, List.countP_cons_of_neg other]
  exact go []

theorem pieces_line (text rest : Text) :
    pieces isLineFeed (line text ++ rest) = pieces isLineFeed text ++ pieces isLineFeed rest := by
  rw [line, List.append_assoc]
  exact pieces_append_cons rfl text rest

theorem linesOf_line (text rest : Text) :
    linesOf (line text ++ rest) = pieces isLineFeed text ++ linesOf rest := by
  have some : pieces isLineFeed rest ≠ [] := by
    rw [pieces_eq_splitOnP]
    exact List.splitOnP_ne_nil _ _
  rw [linesOf, pieces_line, List.dropLast_append_of_ne_nil some, linesOf]

theorem linesOf_flatMap_line (texts : List Text) :
    linesOf (texts.flatMap line) = texts.flatMap (pieces isLineFeed) := by
  induction texts with
  | nil => rfl
  | cons text texts ih => rw [List.flatMap_cons, List.flatMap_cons, linesOf_line, ih]

theorem pieces_of_not_mem {text : Text} (single : '\n' ∉ text) :
    pieces isLineFeed text = [text] := by
  apply pieces_of_forall_not
  intro c member
  rw [isLineFeed, beq_eq_false_iff_ne]
  rintro rfl
  exact single member

/-- Texts that are written line by line have as many lines more as they hold line feeds. -/
theorem length_linesOf_flatMap_line (texts : List Text) :
    (linesOf (texts.flatMap line)).length =
      texts.length + (texts.map (·.count '\n')).sum := by
  rw [linesOf_flatMap_line, List.length_flatMap]
  simp only [length_pieces]
  induction texts with
  | nil => rfl
  | cons text texts ih =>
    have count : text.count '\n' = text.countP isLineFeed := rfl
    simp only [List.map_cons, List.sum_cons, List.length_cons, ih, count]
    omega

/-! ### What holds no line feed -/

theorem not_lineFeed_mem_digits (base number : Nat) : '\n' ∉ digits base number := by
  have core : ∀ fuel number written, '\n' ∉ written →
      '\n' ∉ Nat.toDigitsCore base fuel number written := by
    intro fuel
    induction fuel with
    | zero => exact fun _ _ none => none
    | succ fuel ih =>
      intro number written none
      have more : '\n' ∉ Nat.digitChar (number % base) :: written := by
        rw [List.mem_cons, not_or]
        exact ⟨(Nat.digitChar_ne '\n' rfl).symm, none⟩
      rw [Nat.toDigitsCore]
      split
      · exact more
      · exact ih _ _ more
  exact core _ _ [] List.not_mem_nil

theorem not_lineFeed_mem_escapeChar (c : Char) : '\n' ∉ escapeChar (fun _ => false) c := by
  have digits := not_lineFeed_mem_digits 16 c.toNat
  rw [escapeChar]
  split
  next quote =>
    rcases quote with rfl | rfl | none
    · decide
    · decide
    · cases none
  next =>
    split
    · decide
    · split
      · decide
      next other =>
        split
        · decide
        · split
          · decide
          · split
            · simpa using Ne.symm other
            · simp [hexadecimal, digits]

theorem not_lineFeed_mem_quoted (text : Text) : '\n' ∉ quoted text := by
  have inner : '\n' ∉ text.flatMap (escapeChar fun _ => false) := by
    rw [List.mem_flatMap]
    rintro ⟨c, -, member⟩
    exact not_lineFeed_mem_escapeChar c member
  simp [quoted, inner]

theorem not_lineFeed_mem_counted {number : Nat} {singular plural : Text}
    (none : '\n' ∉ singular) (none' : '\n' ∉ plural) : '\n' ∉ counted number singular plural := by
  have digits := not_lineFeed_mem_digits 10 number
  rw [counted, decimal, List.mem_append, List.mem_cons, not_or, not_or]
  refine ⟨digits, by decide, ?_⟩
  split
  · exact none
  · exact none'

namespace Report

theorem not_lineFeed_mem_summary (batch : Batch) : '\n' ∉ summary batch := by
  have files := fun number => @not_lineFeed_mem_counted number "file".toList "files".toList
    (by decide) (by decide)
  have keys := @not_lineFeed_mem_counted batch.totalKeys "key".toList "keys".toList
    (by decide) (by decide)
  rw [summary]
  split
  · simp only [List.mem_append, not_or]
    exact ⟨⟨by decide, files _⟩, by decide⟩
  · simp only [List.mem_append, not_or]
    exact ⟨⟨⟨by decide, keys⟩, by decide⟩, files _⟩

/-- Of what is shown for a record, only the key may hold line feeds. -/
theorem count_recordText (record : Record) :
    (recordText false record).count '\n' = record.key.count '\n' := by
  obtain ⟨key, defaultValue⟩ := record
  cases defaultValue with
  | none => simp [recordText]
  | some value =>
    have escaped := List.count_eq_zero.mpr (not_lineFeed_mem_quoted value)
    simp [recordText, escaped]

/-- A report is its layout, line by line. -/
theorem text_eq_layout (batch : Batch) : text false batch = (layout batch).flatMap line := by
  have files : (filesWithKeys batch).flatMap (fileLines false) =
      ((groups batch).flatMap groupLines).flatMap line := by
    rw [groups, List.flatMap_map, List.flatMap_assoc]
    apply List.flatMap_congr
    intro file _
    have records : file.records.flatMap (recordLine false) =
        (file.records.map (recordText false)).flatMap line := by
      rw [List.flatMap_map]
      rfl
    simp [groupLines, fileLines, records]
  rw [text, files, layout, List.flatMap_append]
  simp [successLine]

theorem length_layout (batch : Batch) :
    (layout batch).length =
      ((filesWithKeys batch).map fun file => file.records.length + 2).sum + 1 := by
  rw [layout, List.length_append, List.length_flatMap, groups, List.map_map]
  simp only [Function.comp_def, groupLines, List.length_cons, List.length_append, List.length_map,
    List.length_nil]

/-- Files without records have no part in the records of a batch. -/
theorem records_filesWithKeys (batch : Batch) :
    (filesWithKeys batch).flatMap (·.records) = batch.files.flatMap (·.records) := by
  rw [filesWithKeys]
  induction batch.files with
  | nil => rfl
  | cons file files ih =>
    by_cases none : file.records = []
    · rw [List.filter_cons_of_neg (by simp [none]), List.flatMap_cons, none, ih]
      rfl
    · rw [List.filter_cons_of_pos (by simp [none]), List.flatMap_cons, List.flatMap_cons, ih]

theorem sum_count_groupLines {path : Text} (single : '\n' ∉ path) (records : List Record) :
    ((groupLines (path, records.map (recordText false))).map (·.count '\n')).sum =
      (records.map fun record => record.key.count '\n').sum := by
  have counts : (records.map (recordText false)).map (·.count '\n') =
      records.map fun record => record.key.count '\n' := by
    rw [List.map_map]
    exact List.map_congr_left fun record _ => count_recordText record
  simp [groupLines, List.count_eq_zero.mpr single, counts]

/-- The line feeds within the lines of a layout are those in the keys. -/
theorem sum_count_layout {batch : Batch} (paths : ∀ file ∈ batch.files, '\n' ∉ file.path) :
    ((layout batch).map (·.count '\n')).sum = lineFeedsInKeys batch := by
  have last : (successMark ++ ' ' :: summary batch).count '\n' = 0 := by
    rw [List.count_append, List.count_cons_of_ne (by decide),
      List.count_eq_zero.mpr (not_lineFeed_mem_summary batch)]
    rfl
  have withKeys : ∀ file ∈ filesWithKeys batch, '\n' ∉ file.path := fun file member =>
    paths file (List.mem_of_mem_filter member)
  rw [layout, List.map_append, List.sum_append, List.map_singleton, List.sum_singleton, last,
    lineFeedsInKeys, ← records_filesWithKeys, groups, Nat.add_zero]
  generalize filesWithKeys batch = files at withKeys ⊢
  induction files with
  | nil => rfl
  | cons file files ih =>
    obtain ⟨single, others⟩ := List.forall_mem_cons.mp withKeys
    rw [List.map_cons, List.flatMap_cons, List.map_append, List.sum_append,
      sum_count_groupLines single, ih others, List.flatMap_cons, List.map_append, List.sum_append]

theorem lineFeedsInKeys_eq_zero_iff {batch : Batch} :
    lineFeedsInKeys batch = 0 ↔ HasOneLineKeys batch := by
  simp only [lineFeedsInKeys, List.sum_eq_zero_iff_forall_eq_nat, HasOneLineKeys, List.mem_map,
    List.mem_flatMap]
  constructor
  · intro none file member record listed
    exact List.count_eq_zero.mp (none _ ⟨record, ⟨file, member, listed⟩, rfl⟩)
  · rintro none _ ⟨record, ⟨file, member, listed⟩, rfl⟩
    exact List.count_eq_zero.mpr (none file member record listed)

/-- Texts without line feeds are the lines of what is written from them. -/
theorem linesOf_eq_of_sum_eq_zero {texts : List Text}
    (none : (texts.map (·.count '\n')).sum = 0) : linesOf (texts.flatMap line) = texts := by
  rw [linesOf_flatMap_line]
  induction texts with
  | nil => rfl
  | cons text texts ih =>
    rw [List.map_cons, List.sum_cons, Nat.add_eq_zero_iff] at none
    rw [List.flatMap_cons, pieces_of_not_mem (List.count_eq_zero.mp none.1), ih none.2]
    rfl

/-! ### What the lines tell -/

theorem ne_nil_of_mem_groups {batch : Batch} {group : Text × List Text}
    (member : group ∈ groups batch) : [] ∉ group.2 := by
  obtain ⟨file, -, rfl⟩ := List.mem_map.mp member
  rw [List.mem_map]
  rintro ⟨record, -, empty⟩
  cases empty

/-- An empty line ends a group. -/
theorem eq_of_append_nil_cons {texts texts' rest rest' : List Text} (some : [] ∉ texts)
    (some' : [] ∉ texts') (same : texts ++ [] :: rest = texts' ++ [] :: rest') :
    texts = texts' ∧ rest = rest' := by
  induction texts generalizing texts' with
  | nil =>
    cases texts' with
    | nil => exact ⟨rfl, (List.cons.inj same).2⟩
    | cons text texts' => exact absurd (List.cons.inj same).1 (List.ne_of_not_mem_cons some')
  | cons text texts ih =>
    cases texts' with
    | nil => exact absurd (List.cons.inj same).1.symm (List.ne_of_not_mem_cons some)
    | cons text' texts' =>
      obtain ⟨first, others⟩ := List.cons.inj same
      have none := List.not_mem_of_not_mem_cons some
      have none' := List.not_mem_of_not_mem_cons some'
      obtain ⟨rfl, behind⟩ := ih none none' others
      exact ⟨by rw [first], behind⟩

theorem eq_of_groupLines {groups groups' : List (Text × List Text)} {last last' : Text}
    (some : ∀ group ∈ groups, [] ∉ group.2) (some' : ∀ group ∈ groups', [] ∉ group.2)
    (same : groups.flatMap groupLines ++ [last] = groups'.flatMap groupLines ++ [last']) :
    groups = groups' := by
  induction groups generalizing groups' with
  | nil =>
    cases groups' with
    | nil => rfl
    | cons group groups' => simp [groupLines] at same
  | cons group groups ih =>
    cases groups' with
    | nil => simp [groupLines] at same
    | cons group' groups' =>
      obtain ⟨first, others⟩ := List.forall_mem_cons.mp some
      obtain ⟨first', others'⟩ := List.forall_mem_cons.mp some'
      -- The path is the first line, and the first empty line ends the records.
      simp only [List.flatMap_cons, groupLines, List.cons_append, List.append_assoc,
        List.nil_append] at same
      obtain ⟨path, behind⟩ := List.cons.inj same
      obtain ⟨records, rest⟩ := eq_of_append_nil_cons first first' behind
      rw [ih others others' rest, Prod.ext path records]

/-- A text report has the lines of its layout exactly if no key holds a line feed; every line feed
in a key makes one line more. Where no key holds any, the report tells its files and the lines of
their records. -/
theorem linesOf_text (batch : Batch) (paths : ∀ file ∈ batch.files, '\n' ∉ file.path) :
    (linesOf (text false batch) = layout batch ↔ HasOneLineKeys batch) ∧
      (linesOf (text false batch)).length =
        ((filesWithKeys batch).map fun file => file.records.length + 2).sum + 1 +
          lineFeedsInKeys batch ∧
      (HasOneLineKeys batch → ∀ other : Batch, (∀ file ∈ other.files, '\n' ∉ file.path) →
        HasOneLineKeys other → text false other = text false batch →
          groups other = groups batch) := by
  have lines : ∀ batch : Batch, (∀ file ∈ batch.files, '\n' ∉ file.path) → HasOneLineKeys batch →
      linesOf (text false batch) = layout batch := by
    intro batch paths single
    rw [text_eq_layout]
    apply linesOf_eq_of_sum_eq_zero
    rw [sum_count_layout paths, lineFeedsInKeys_eq_zero_iff]
    exact single
  have length : (linesOf (text false batch)).length = (layout batch).length +
      lineFeedsInKeys batch := by
    rw [text_eq_layout, length_linesOf_flatMap_line, sum_count_layout paths]
  refine ⟨⟨fun same => ?_, lines batch paths⟩, ?_, ?_⟩
  · -- A line feed in a key would make the report longer than its layout.
    rw [same] at length
    exact lineFeedsInKeys_eq_zero_iff.mp (by omega)
  · rw [length, length_layout]
  · intro single other paths' single' same
    have layouts := lines other paths' single'
    rw [same, lines batch paths single] at layouts
    exact (eq_of_groupLines (fun _ => ne_nil_of_mem_groups) (fun _ => ne_nil_of_mem_groups)
      layouts).symm

/-- A page with two keys, one of which has a default value that would take two lines. -/
def twoKeys : FileExtraction :=
  extractSource .default "page.html".toList
    ("<p data-i18n=\"greeting\"></p>".toList ++
      "<p data-i18n=bye data-i18n-options='\x7b\"defaultValue\":\"a\\nb\"\x7d'>".toList)

def keylessPage : FileExtraction := extractSource .default "empty.html".toList "<p>".toList

theorem linesOf_twoKeys :
    let batch : Batch := ⟨[twoKeys], []⟩
    let other : Batch := ⟨[keylessPage, twoKeys], []⟩
    (∀ file ∈ batch.files, '\n' ∉ file.path) ∧ HasOneLineKeys batch ∧
      linesOf (text false batch) =
        ["page.html".toList, "  greeting".toList, "  bye (default: \"a\\nb\")".toList, [],
          "✓ Extracted 2 keys from 1 file".toList] ∧
      (linesOf (text false batch)).length = 5 ∧
      text false other = text false batch ∧ groups other = groups batch := by
  intro batch other
  have paths : ∀ file ∈ batch.files, '\n' ∉ file.path := by decide +kernel
  have paths' : ∀ file ∈ other.files, '\n' ∉ file.path := by decide +kernel
  have single : HasOneLineKeys batch := by decide +kernel
  have single' : HasOneLineKeys other := by decide +kernel
  have same : text false other = text false batch := by decide +kernel
  obtain ⟨lines, length, told⟩ := linesOf_text batch paths
  refine ⟨paths, single, (lines.mpr single).trans ?_, length.trans ?_, same,
    told single other paths' single' same⟩
  · decide +kernel
  · decide +kernel

/-- A key with a line feed is shown on two lines. -/
theorem not_linesOf_text_eq_layout :
    ¬ ∀ (markers : Markers) (sources : List (Text × Text)),
      (∀ source ∈ sources, '\n' ∉ source.1) →
        let batch : Batch := ⟨sources.map fun source => extractSource markers source.1 source.2, []⟩
        linesOf (text false batch) = layout batch := by
  intro lines
  have same := lines .default [("a.html".toList, "<p data-i18n=\"a\nb\"></p>".toList)]
    (by decide +kernel)
  exact absurd same (by decide +kernel)

end Report
end KeyHarvest
