import KeyHarvest.Buffer.Extraction
import KeyHarvest.Proofs.BufferAttributes
import KeyHarvest.Proofs.BufferScan

/-!
# Extraction from a buffer fails nowhere

Each stage of the extraction from a buffer succeeds with what the same stage gives on texts: the
tags, the attributes of each tag, the keys in each piece of a value. So no access fails, for any
text and any markers.
-/
namespace KeyHarvest
open CodeUnit

/-- The qualifier at the start of a text ends behind a bracket, and the key is in what follows. -/
theorem dropQualifier_of_qualifierEnd? (text : Text) :
    match qualifierEnd? text with
    | none => dropQualifier text = text
    | some stop => ∃ qualifier rest, text = qualifier ++ rest ∧ stop = size qualifier ∧
        dropQualifier text = trim rest := by
  cases text with
  | nil => rfl
  | cons c rest =>
    by_cases opens : c = '['
    · subst opens
      rw [qualifierEnd?, dropQualifier]
      cases cut : splitAt? (· == ']') rest with
      | none => rfl
      | some parts =>
        obtain ⟨inner, after⟩ := parts
        obtain ⟨close, rfl, closes, -⟩ := splitAt?_eq_some_iff.mp cut
        rw [beq_iff_eq] at closes
        subst closes
        exact ⟨'[' :: (inner ++ [']']), after, by simp, rfl, rfl⟩
    · have none : qualifierEnd? (c :: rest) = none := by simp [qualifierEnd?, opens]
      rw [none]
      simp [dropQualifier, opens]

namespace Buffer

theorem key?_eq (piece : Text) : key? piece = .ok (KeyHarvest.key? piece) := by
  have dropped := dropQualifier_of_qualifierEnd? (trim piece)
  rw [key?, KeyHarvest.key?]
  cases ends : qualifierEnd? (trim piece) with
  | none =>
    rw [ends] at dropped
    rw [dropped]
    rfl
  | some stop =>
    rw [ends] at dropped
    obtain ⟨qualifier, rest, equal, rfl, dropped⟩ := dropped
    -- The slice starts behind the bracket, which is where the qualifier has all its bytes.
    have whole : (of (trim piece)).text = qualifier ++ rest ++ [] := by
      rw [List.append_nil]
      exact equal
    have cut := slice_text whole
    rw [← equal] at cut
    dsimp only
    rw [cut, dropped]
    rfl

theorem keys_eq (found : Lookup Char) (followingText : Text) :
    keys found followingText = .ok (KeyHarvest.keys found followingText) := by
  cases found with
  | absent => rfl
  | noValue =>
    rw [keys, key?_eq]
    rfl
  | value text =>
    have all : (pieces isKeySeparator text).mapM key? =
        .ok ((pieces isKeySeparator text).map KeyHarvest.key?) := by
      rw [funext key?_eq]
      exact List.mapM_pure
    rw [keys, all, Except.ok_bind, List.filterMap_map]
    rfl

theorem harvest_eq (markers : Markers) (tag : Tag Char) :
    harvest markers tag = .ok (KeyHarvest.harvest markers tag) := by
  rw [harvest, attributes_of, Except.ok_bind, keys_eq, Except.ok_bind, ← normalize,
    KeyHarvest.harvest]
  dsimp only
  generalize normalize _ _ = records
  cases records with
  | nil => rfl
  | cons record records => rfl

/-- No access fails: for every text, and whatever the markers are, extraction with every access
checked goes through, and gives what extraction gives. -/
theorem extract_of (markers : Markers) (text : Text) :
    (of text).extract markers = .ok (KeyHarvest.extract markers text) := by
  have all (marked : List (Tag Char)) :
      marked.mapM (harvest markers) = .ok (marked.map (KeyHarvest.harvest markers)) := by
    rw [funext (harvest_eq markers)]
    exact List.mapM_pure
  rw [extract, tags_of, Except.ok_bind]
  dsimp only
  rw [all, Except.ok_bind]
  rfl

end Buffer
end KeyHarvest
