import KeyHarvest.Buffer.Attributes
import KeyHarvest.Proofs.AttributeForms
import KeyHarvest.Proofs.Encoding

/-!
# The attributes of a buffer

Reading attributes by places of a buffer is reading them from its text. Each reader is given a place
with `rest` behind it; it succeeds with what the reader of texts reads, at the place behind what
that reader takes.
-/
namespace KeyHarvest
open CodeUnit

/-- A byte is told from a quote as its character is. -/
theorem agree_ne_quote {quote : Char} (delimits : isQuote quote = true) :
    Agree (· != UInt8.ofNat quote.toNat) (!is quote ·) := by
  intro c byte member
  have ascii := isQuote_ascii delimits
  have same : (byte == UInt8.ofNat quote.toNat) = is quote byte := by
    rw [Bool.eq_iff_iff, beq_iff_eq, is, beq_iff_eq, ← UInt8.toNat_inj]
    have small : quote.toNat < 256 := by omega
    rw [UInt8.toNat_ofNat_of_lt' small]
    rfl
  simp only [bne, same, agree_is ascii c byte member]

namespace Buffer

variable {buffer : Buffer} {before rest : Text}

theorem lt_length_iff (whole : buffer.text = before ++ rest) :
    size before < buffer.bytes.length ↔ rest ≠ [] := by
  rw [length_bytes whole]
  constructor
  · rintro inside rfl
    rw [size_nil] at inside
    omega
  · intro some
    have wide : size rest ≠ 0 := mt eq_nil_of_size_eq_zero some
    omega

theorem quoteAt?_nil (whole : buffer.text = before ++ []) :
    buffer.quoteAt? (size before) = .ok none := by
  rw [quoteAt?, if_neg (mt (lt_length_iff whole).mp (by simp))]
  rfl

theorem quoteAt?_cons {c : Char} (whole : buffer.text = before ++ c :: rest) :
    buffer.quoteAt? (size before) =
      .ok (if isQuote c then some (UInt8.ofNat c.toNat) else none) := by
  obtain ⟨byte, member, stands⟩ := byteAt_text whole
  rw [quoteAt?, if_pos ((lt_length_iff whole).mpr (by simp)), stands, Except.ok_bind,
    agree_isQuote c byte member]
  split
  next quote =>
    rw [utf8EncodeChar_of_lt (isQuote_ascii quote), List.mem_singleton] at member
    rw [member]
    rfl
  next other => rfl

theorem equalsAt_nil (whole : buffer.text = before ++ []) :
    buffer.equalsAt (size before) = .ok false := by
  rw [equalsAt, if_neg (mt (lt_length_iff whole).mp (by simp))]
  rfl

theorem equalsAt_cons {c : Char} (whole : buffer.text = before ++ c :: rest) :
    buffer.equalsAt (size before) = .ok (is '=' c) := by
  obtain ⟨byte, member, stands⟩ := byteAt_text whole
  have same : is '=' byte = is '=' c := agree_is (by decide) c byte member
  rw [equalsAt, if_pos ((lt_length_iff whole).mpr (by simp)), stands, Except.ok_bind, same]
  rfl

/-! ### Values -/

theorem readQuoted_text {quote : Char} (delimits : isQuote quote = true)
    (whole : buffer.text = before ++ rest) :
    ∃ taken, rest = taken ++ (rest.dropWhile (!is quote ·)).drop 1 ∧
      buffer.readQuoted (UInt8.ofNat quote.toNat) (size before) =
        .ok (rest.takeWhile (!is quote ·), size (before ++ taken)) := by
  have passed := passWhile_text (agree_ne_quote delimits) whole
  have parts := rest.takeWhile_append_dropWhile (p := (!is quote ·))
  have stops := head_dropWhile (!is quote ·) rest
  generalize rest.takeWhile (!is quote ·) = value at passed parts ⊢
  generalize rest.dropWhile (!is quote ·) = tail at parts stops ⊢
  subst parts
  have behind : buffer.text = before ++ value ++ tail := by rw [whole, List.append_assoc]
  rw [readQuoted, passed, Except.ok_bind, slice_text behind, Except.ok_bind]
  cases tail with
  | nil =>
    -- The quote never closes, and the value ends with the text.
    refine ⟨value, rfl, ?_⟩
    rw [if_neg (mt (lt_length_iff behind).mp (by simp))]
    rfl
  | cons close after =>
    have closes : close = quote := by
      have same := stops close rfl
      rwa [Bool.not_eq_eq_eq_not, Bool.not_false, is_iff] at same
    subst closes
    refine ⟨value ++ [close], by simp, ?_⟩
    rw [if_pos ((lt_length_iff behind).mpr (by simp)), ← List.append_assoc,
      size_append_ascii _ (isQuote_ascii delimits)]
    rfl

theorem readBare_text (whole : buffer.text = before ++ rest) :
    buffer.readBare (size before) =
      .ok (rest.takeWhile (!isSpace ·), size (before ++ rest.takeWhile (!isSpace ·))) := by
  have passed := passWhile_text agree_isSpace.not whole
  have parts := rest.takeWhile_append_dropWhile (p := (!isSpace ·))
  generalize rest.takeWhile (!isSpace ·) = value at passed parts ⊢
  rw [← parts, ← List.append_assoc] at whole
  rw [readBare, passed, Except.ok_bind, slice_text whole]
  rfl

theorem readValue_text (whole : buffer.text = before ++ rest) :
    ∃ taken, rest = taken ++ (readAttributeValue rest).2 ∧
      buffer.readValue (size before) =
        .ok ((readAttributeValue rest).1, size (before ++ taken)) := by
  have passed := passWhile_text agree_isSpace whole
  have parts : rest.takeWhile isSpace ++ skipSpace rest = rest := List.takeWhile_append_dropWhile
  rw [readValue, passed, Except.ok_bind]
  generalize rest.takeWhile isSpace = space at parts ⊢
  cases skipped : skipSpace rest with
  | nil =>
    rw [skipped] at parts
    rw [← parts, ← List.append_assoc] at whole
    have none : readAttributeValue rest = ([], []) := by rw [readAttributeValue, skipped]
    have read := readBare_text whole
    rw [none, quoteAt?_nil whole, Except.ok_bind]
    refine ⟨space, parts.symm, ?_⟩
    simpa using read
  | cons a more =>
    rw [skipped] at parts
    rw [← parts, ← List.append_assoc] at whole
    rw [quoteAt?_cons whole, Except.ok_bind]
    by_cases quote : isQuote a = true
    · -- The value starts behind the quote, which is one byte wide.
      have behind : buffer.text = (before ++ space ++ [a]) ++ more :=
        whole.trans (List.append_cons ..)
      have place := size_append_ascii (before ++ space) (isQuote_ascii quote)
      obtain ⟨value, equal, read⟩ := readQuoted_text quote behind
      rw [readAttributeValue_of_isQuote skipped quote, if_pos quote]
      dsimp only
      rw [← place, read]
      refine ⟨space ++ a :: value, ?_, by simp⟩
      rw [← parts, List.append_assoc, List.cons_append, ← equal]
    · rw [Bool.not_eq_true] at quote
      have read := readBare_text whole
      rw [readAttributeValue_of_not_isQuote skipped quote, quote, if_neg Bool.false_ne_true]
      dsimp only
      rw [read]
      refine ⟨space ++ (a :: more).takeWhile (!isSpace ·), ?_, by simp⟩
      rw [List.append_assoc, List.takeWhile_append_dropWhile, parts]

theorem readAssignment_text (whole : buffer.text = before ++ rest) :
    ∃ taken, rest = taken ++ (KeyHarvest.readAssignment rest).2 ∧
      buffer.readAssignment (size before) =
        .ok ((KeyHarvest.readAssignment rest).1, size (before ++ taken)) := by
  have passed := passWhile_text agree_isSpace whole
  have parts : rest.takeWhile isSpace ++ skipSpace rest = rest := List.takeWhile_append_dropWhile
  have spaces : Declaration.IsSpace (rest.takeWhile isSpace) := all_takeWhile
  rw [readAssignment, passed, Except.ok_bind]
  generalize rest.takeWhile isSpace = space at parts spaces ⊢
  cases skipped : skipSpace rest with
  | nil =>
    have none := readAssignment_none (by simp [skipped] : ∀ c ∈ (skipSpace rest).head?, c ≠ '=')
    rw [skipped] at parts none
    rw [← parts, ← List.append_assoc] at whole
    rw [equalsAt_nil whole, Except.ok_bind, none]
    exact ⟨space, parts.symm, rfl⟩
  | cons a more =>
    have here : buffer.text = (before ++ space) ++ a :: more := by
      rw [whole, List.append_assoc, ← skipped, parts]
    rw [equalsAt_cons here, Except.ok_bind]
    by_cases equals : is '=' a = true
    · obtain rfl := is_iff.mp equals
      have behind : buffer.text = (before ++ space ++ ['=']) ++ more :=
        here.trans (List.append_cons ..)
      have place := size_append_ascii (before ++ space) (by decide : '='.toNat < 128)
      obtain ⟨value, equal, read⟩ := readValue_text behind
      have assigned := @readAssignment_equals space more spaces
      rw [← skipped, parts] at assigned
      rw [if_pos equals, ← place, read, Except.ok_bind, assigned]
      refine ⟨space ++ '=' :: value, ?_, ?_⟩
      · rw [← parts, skipped, List.append_assoc, List.cons_append, ← equal]
      · rw [List.append_assoc, List.append_assoc]
        rfl
    · have none := readAssignment_none
        (by simpa [skipped] using mt is_iff.mpr equals : ∀ c ∈ (skipSpace rest).head?, c ≠ '=')
      rw [if_neg equals, none]
      exact ⟨space, parts.symm, rfl⟩

/-! ### Attributes -/

/-- What cannot stand in a name is below 128, so passing over a byte passes over a character. -/
theorem ascii_of_not_isAttributeNameUnit {c : Char} (nameless : isAttributeNameUnit c = false) :
    c.toNat < 128 := by
  apply Nat.lt_of_not_le
  intro other
  revert nameless
  simp [isAttributeNameUnit, isSpace, isQuote, code]
  omega

/-- A turn of reading from a buffer is a turn of reading from the text behind the place. -/
theorem readAttribute_text (whole : buffer.text = before ++ rest) :
    match KeyHarvest.readAttribute rest with
    | none => buffer.readAttribute (size before) = .ok none
    | some (declared, after) =>
      ∃ taken, rest = taken ++ after ∧
        buffer.readAttribute (size before) = .ok (some (declared, size (before ++ taken))) := by
  have passed := passWhile_text agree_isSpace whole
  have parts : rest.takeWhile isSpace ++ skipSpace rest = rest := List.takeWhile_append_dropWhile
  rw [readAttribute, passed, Except.ok_bind, KeyHarvest.readAttribute]
  generalize rest.takeWhile isSpace = space at parts ⊢
  cases skipped : skipSpace rest with
  | nil =>
    rw [skipped] at parts
    rw [← parts, ← List.append_assoc] at whole
    rw [if_neg (mt (lt_length_iff whole).mp (by simp))]
    rfl
  | cons a more =>
    rw [skipped] at parts
    rw [← parts, ← List.append_assoc] at whole
    have named := passWhile_text agree_isAttributeNameUnit whole
    rw [if_pos ((lt_length_iff whole).mpr (by simp)), named, Except.ok_bind]
    by_cases starts : isAttributeNameUnit a = true
    · -- The name is not empty, so it ends behind the place where it starts.
      have nonempty : (a :: more).takeWhile isAttributeNameUnit ≠ [] := by simp [starts]
      have cut := (a :: more).takeWhile_append_dropWhile (p := isAttributeNameUnit)
      dsimp only
      rw [if_pos starts]
      generalize (a :: more).takeWhile isAttributeNameUnit = name at nonempty cut ⊢
      generalize (a :: more).dropWhile isAttributeNameUnit = tail at cut ⊢
      rw [← cut, ← List.append_assoc] at whole
      obtain ⟨taken, equal, read⟩ := readAssignment_text whole
      have moved : size (before ++ space ++ name) ≠ size (before ++ space) := by
        have wide : size name ≠ 0 := mt eq_nil_of_size_eq_zero nonempty
        rw [size_append _ name]
        omega
      rw [if_neg moved, slice_text whole, Except.ok_bind, read, Except.ok_bind]
      refine ⟨space ++ name ++ taken, ?_, ?_⟩
      · rw [List.append_assoc, ← equal, List.append_assoc, cut, parts]
      · rw [← List.append_assoc, ← List.append_assoc]
        rfl
    · rw [Bool.not_eq_true] at starts
      -- Nothing moves the place on but the step over this one byte.
      have unnamed : (a :: more).takeWhile isAttributeNameUnit = [] := by simp [starts]
      dsimp only
      rw [unnamed, List.append_nil, if_pos rfl, starts, if_neg Bool.false_ne_true]
      refine ⟨space ++ [a], by rw [← parts]; simp, ?_⟩
      rw [← List.append_assoc, size_append_ascii _ (ascii_of_not_isAttributeNameUnit starts)]
      rfl

theorem attributes_of_none {place : Nat} (read : buffer.readAttribute place = .ok none) :
    buffer.attributes place = .ok [] := by
  rw [attributes.eq_def]
  split <;> simp_all

theorem attributes_of_passed {place next : Nat}
    (read : buffer.readAttribute place = .ok (some (none, next))) :
    buffer.attributes place = buffer.attributes next := by
  rw [attributes.eq_def]
  split <;> simp_all

theorem attributes_of_declared {place next : Nat} {declared : Attribute Char}
    (read : buffer.readAttribute place = .ok (some (some declared, next))) :
    buffer.attributes place = (do
      let others ← buffer.attributes next
      return declared :: others) := by
  rw [attributes.eq_def]
  split <;> simp_all

/-- Reading attributes from a buffer fails nowhere, and gives the attributes of the text behind its
place. -/
theorem attributes_text (whole : buffer.text = before ++ rest) :
    buffer.attributes (size before) = .ok (KeyHarvest.attributes rest) := by
  induction length : rest.length using Nat.strongRecOn generalizing before rest with
  | ind bound ih =>
    subst length
    have turned := readAttribute_text whole
    -- The next turn starts behind what this one takes.
    have later : ∀ declared taken after, KeyHarvest.readAttribute rest = some (declared, after) →
        rest = taken ++ after →
          buffer.attributes (size (before ++ taken)) = .ok (KeyHarvest.attributes after) := by
      intro declared taken after read equal
      have behind : buffer.text = (before ++ taken) ++ after := by
        rw [whole, List.append_assoc, ← equal]
      exact ih _ (readAttribute_shorter read) behind rfl
    rw [KeyHarvest.attributes.eq_def]
    split
    next read =>
      rw [read] at turned
      exact attributes_of_none turned
    next after read =>
      rw [read] at turned
      obtain ⟨taken, equal, moved⟩ := turned
      rw [attributes_of_passed moved]
      exact later none taken after read equal
    next declared after read =>
      rw [read] at turned
      obtain ⟨taken, equal, moved⟩ := turned
      rw [attributes_of_declared moved, later _ taken after read equal]
      rfl

theorem attributes_of (text : Text) :
    (of text).attributes 0 = .ok (KeyHarvest.attributes text) := by
  have whole : (of text).text = [] ++ text := rfl
  exact attributes_text whole

end Buffer
end KeyHarvest
