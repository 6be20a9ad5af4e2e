import KeyHarvest.Proofs.ByteScan
import KeyHarvest.Proofs.Contributions
import Mathlib.Data.List.Basic

/-!
# Extraction from files that are not UTF-8

Decoding keeps the line feeds of a content (`count_decodeLossy`), and it can be cut in front of a
tag. So what a batch extracts from a file can be read off the bytes of the file: its tags are those
of the bytes, decoded piece by piece, and its warnings carry the lines of the bytes
(`extract_decodeLossy`).
-/
namespace KeyHarvest
open CodeUnit

/-! ### Lines -/

theorem count_decodeLossy (bytes : List UInt8) :
    (decodeLossy bytes).count '\n' = bytes.count 10 := by
  induction bytes using decodingInduction with
  | nil => rfl
  | ascii byte rest small ih =>
    have feed : (Char.ofNat byte.toNat == '\n') = (byte == 10) := by
      have same := is_ofNat '\n' small
      rw [Bool.eq_iff_iff, is_iff, is, beq_iff_eq] at same
      rw [Bool.eq_iff_iff, beq_iff_eq, beq_iff_eq, same]
      exact UInt8.toNat_inj (b := 10)
    rw [decodeLossy_cons small, List.count_cons, List.count_cons, ih, feed]
  | run run rest some others cut ih =>
    -- A line feed is below 128, on both sides.
    have none : run.count 10 = 0 := by
      rw [List.count_eq_zero]
      intro member
      exact absurd (others 10 member) (by decide)
    have none' : (decodeLossy run).count '\n' = 0 := by
      rw [List.count_eq_zero]
      intro member
      exact absurd (le_of_mem_decodeLossy others '\n' member) (by decide)
    rw [decodeLossy_append run cut, List.count_append, List.count_append, ih, none, none']

/-- Where markup starts, the line among the bytes is the line in the text. -/
theorem lineOf_decodeLossy {content : List UInt8} {offset : Nat}
    (starts : startsMarkup (content.drop offset) = true) :
    lineOf (decodeLossy content) (size (decodeLossy (content.take offset))) =
      lineOfByte content offset := by
  rw [startsMarkup_eq] at starts
  obtain ⟨first, others, behind, -, -, small, -⟩ := exists_cons_of_opensWith starts
  have parts := decodeLossy_append_cons (content.take offset) small others
  rw [← behind, List.take_append_drop] at parts
  rw [parts, lineOfByte, ← count_decodeLossy]
  exact (lineOf_append _ _ 0).trans (Nat.add_comm ..)

/-! ### Extraction -/

/-- A tag of some bytes starts with a `<`. -/
theorem getElem?_of_startsMarkup {content : List UInt8} {offset : Nat}
    (starts : startsMarkup (content.drop offset) = true) : content[offset]? = some 60 := by
  rw [startsMarkup_eq] at starts
  obtain ⟨first, others, behind, holds, -, -, -⟩ := exists_cons_of_opensWith starts
  have same : first.toNat = 60 := beq_iff_eq.mp holds
  have first60 : first = 60 := UInt8.toNat_inj.mp same
  rw [← first60, ← Nat.add_zero offset, ← List.getElem?_drop, behind, List.getElem?_cons_zero]

theorem tag_harvest (markers : Markers) (tag : Tag Char) : (harvest markers tag).tag = tag := by
  rw [harvest]
  dsimp only
  split
  · rfl
  · rfl

/-- What is extracted from the text of some bytes can be read off the bytes. -/
theorem extract_decodeLossy (markers : Markers) (content : List UInt8) :
    extract markers (decodeLossy content) = extractBytes markers content := by
  rw [extract_eq_extractPlainly, extractPlainly, countLines_eq_lineOf, tags_decodeLossy,
    List.map_map, collect, extractBytes, List.flatMap_map, List.filterMap_map]
  congr 1
  apply List.filterMap_congr
  intro tag member
  have line := lineOf_decodeLossy (startsMarkup_of_mem_tags member)
  rw [Function.comp, Function.comp, tag_harvest, Tag.decode, line]

theorem files_eq_filterMap_extractSource (workspace : Workspace) (markers : Markers)
    (paths : List Text) :
    (extractFiles workspace markers paths).files =
      paths.filterMap fun path =>
        (workspace.read path).toOption.map fun content =>
          extractSource markers path (decodeLossy content) := by
  rw [extractFiles]
  dsimp only
  rw [List.filterMap_map]
  apply List.filterMap_congr
  intro path _
  rw [Function.comp, extractFile]
  cases workspace.read path with
  | ok content => rfl
  | error problem => rfl

theorem files_eq_filterMap_extractBytes (workspace : Workspace) (markers : Markers)
    (paths : List Text) :
    (∀ content : List UInt8,
      tags (decodeLossy content) = (tags content).map (Tag.decode content) ∧
        ∀ tag ∈ tags content, content[tag.offset]? = some 60) ∧
      (extractFiles workspace markers paths).files =
        paths.filterMap fun path =>
          (workspace.read path).toOption.map fun content =>
            ⟨path, (extractBytes markers content).records,
              (extractBytes markers content).warnings⟩ := by
  refine ⟨fun content => ⟨tags_decodeLossy content, fun tag member => ?_⟩, ?_⟩
  · exact getElem?_of_startsMarkup (startsMarkup_of_mem_tags member)
  · rw [files_eq_filterMap_extractSource]
    simp only [extractSource, extract_decodeLossy]

/-- Characters that break off before a line feed, before a tag, in a value and at the end, so that
the tag is at another offset of the text than of the bytes. -/
def brokenBytes : List UInt8 :=
  [0xE2, 0x82, 10, 0xF0, 0x9F] ++ encode "<i data-i18n='a".toList ++ [0xE9] ++
    encode "' data-i18n-options=[]>".toList ++ [0xED, 0xA0]

def brokenTag : Tag UInt8 :=
  ⟨[105], encode " data-i18n='a".toList ++ [0xE9] ++ encode "' data-i18n-options=[]".toList,
    [0xED, 0xA0], 5⟩

theorem files_brokenBytes :
    let workspace : Workspace := ⟨⟨[(["a".toList], .file brokenBytes)], []⟩, []⟩
    let warning := ⟨2, "<i> options must be a JSON object".toList⟩
    brokenTag ∈ tags brokenBytes ∧ brokenBytes[brokenTag.offset]? = some 60 ∧
      tags (decodeLossy brokenBytes) =
        [⟨['i'], " data-i18n='a\uFFFD' data-i18n-options=[]".toList, "\uFFFD\uFFFD".toList, 7⟩] ∧
      (extractFiles workspace .default ["a".toList, "b".toList]).files =
        [⟨"a".toList, [⟨"a\uFFFD".toList, none⟩], [warning]⟩] := by
  intro workspace warning
  have scanned : tags brokenBytes = [brokenTag] := by decide +kernel
  have member : brokenTag ∈ tags brokenBytes := by simp [scanned]
  obtain ⟨decoded, files⟩ :=
    files_eq_filterMap_extractBytes workspace .default ["a".toList, "b".toList]
  obtain ⟨same, starts⟩ := decoded brokenBytes
  refine ⟨member, starts brokenTag member, ?_, ?_⟩
  · rw [same, scanned]
    decide +kernel
  · rw [files]
    decide +kernel

end KeyHarvest
