import KeyHarvest.Buffer.Access
import KeyHarvest.Markup.Attribute
import KeyHarvest.Markup.Tag
import KeyHarvest.Proofs.Cuts

/-!
# Bytes and characters

A character below 128 is encoded as the byte with its code, and every other character as bytes from
128 on. What is delimited by units below 128 therefore looks the same byte by byte and character by
character: two tests that agree (`Agree`) give the same runs and the same finds, at the same places.
-/
namespace KeyHarvest
open CodeUnit

/-! ### The bytes of a character -/

@[simp] theorem encode_nil : encode [] = [] := rfl

@[simp] theorem encode_cons (c : Char) (text : Text) :
    encode (c :: text) = String.utf8EncodeChar c ++ encode text := rfl

@[simp] theorem encode_append (left right : Text) :
    encode (left ++ right) = encode left ++ encode right :=
  List.flatMap_append

@[simp] theorem length_encode (text : Text) : (encode text).length = size text := by
  induction text with
  | nil => rfl
  | cons c text ih =>
    rw [encode_cons, List.length_append, ih, String.length_utf8EncodeChar, size_cons]
    rfl

theorem utf8EncodeChar_of_lt {c : Char} (ascii : c.toNat < 128) :
    String.utf8EncodeChar c = [UInt8.ofNat c.toNat] := by
  have small : c.val.toNat ≤ 127 := Nat.le_of_lt_succ ascii
  simp only [String.utf8EncodeChar, small, if_true]
  rfl

/-- Behind a character below 128 is the next place. -/
theorem size_append_ascii (before : Text) {c : Char} (ascii : c.toNat < 128) :
    size (before ++ [c]) = size before + 1 := by
  rw [size_append, ← length_encode [c], encode_cons, utf8EncodeChar_of_lt ascii]
  rfl

theorem le_of_mem_utf8EncodeChar {c : Char} (other : 128 ≤ c.toNat) :
    ∀ byte ∈ String.utf8EncodeChar c, 128 ≤ byte.toNat := by
  have large : ¬ c.val.toNat ≤ 127 := Nat.not_le_of_lt other
  simp only [String.utf8EncodeChar, large, if_false]
  split
  · simp; omega
  · split
    · simp; omega
    · simp; omega

/-- Either a byte is the code of its character, or both are from 128 on. -/
theorem code_of_mem_utf8EncodeChar {c : Char} {byte : UInt8}
    (member : byte ∈ String.utf8EncodeChar c) :
    code byte = code c ∨ (128 ≤ code byte ∧ 128 ≤ code c) := by
  by_cases ascii : c.toNat < 128
  · rw [utf8EncodeChar_of_lt ascii, List.mem_singleton] at member
    subst member
    left
    have small : c.toNat < 256 := by omega
    simpa [code] using small
  · right
    have other : 128 ≤ c.toNat := Nat.le_of_not_lt ascii
    exact ⟨le_of_mem_utf8EncodeChar other byte member, other⟩

theorem exists_utf8EncodeChar (c : Char) :
    ∃ byte others, String.utf8EncodeChar c = byte :: others := by
  apply List.exists_cons_of_ne_nil
  intro empty
  have wide := width_pos c
  have length := String.length_utf8EncodeChar c
  rw [empty, List.length_nil] at length
  exact Nat.ne_of_lt wide length

/-! ### Tests that agree -/

/-- A test of bytes says of each byte what a test of characters says of the character. -/
def Agree (onByte : UInt8 → Bool) (onChar : Char → Bool) : Prop :=
  ∀ c, ∀ byte ∈ String.utf8EncodeChar c, onByte byte = onChar c

namespace Agree

/-- A test of codes that does not tell those from 128 on apart. -/
theorem of_code (test : Nat → Bool) (flat : ∀ n, 128 ≤ n → test n = test 128) :
    Agree (fun byte => test (code byte)) (fun c => test (code c)) := by
  intro c byte member
  rcases code_of_mem_utf8EncodeChar member with same | ⟨high, other⟩
  · exact congrArg test same
  · exact (flat _ high).trans (flat _ other).symm

variable {onByte onByte' : UInt8 → Bool} {onChar onChar' : Char → Bool}

theorem not (agree : Agree onByte onChar) : Agree (!onByte ·) (!onChar ·) :=
  fun c byte member => congrArg Bool.not (agree c byte member)

theorem and (agree : Agree onByte onChar) (agree' : Agree onByte' onChar') :
    Agree (fun byte => onByte byte && onByte' byte) (fun c => onChar c && onChar' c) := by
  intro c byte member
  simp only [agree c byte member, agree' c byte member]

theorem or (agree : Agree onByte onChar) (agree' : Agree onByte' onChar') :
    Agree (fun byte => onByte byte || onByte' byte) (fun c => onChar c || onChar' c) := by
  intro c byte member
  simp only [agree c byte member, agree' c byte member]

end Agree

theorem agree_is {c : Char} (ascii : c.toNat < 128) : Agree (is c) (is c) := by
  apply Agree.of_code (· == c.toNat)
  intro n high
  rw [beq_eq_false_iff_ne.mpr (by omega), beq_eq_false_iff_ne.mpr (by omega)]

theorem agree_isSpace : Agree isSpace isSpace :=
  .of_code (fun n => n == 9 || n == 10 || n == 12 || n == 13 || n == 32) (by simp; omega)

theorem agree_isLetter : Agree isLetter isLetter :=
  .of_code (fun n => (65 ≤ n && n ≤ 90) || (97 ≤ n && n ≤ 122)) (by simp; omega)

theorem agree_isQuote : Agree isQuote isQuote := (agree_is (by decide)).or (agree_is (by decide))

theorem agree_isTagNameUnit : Agree isTagNameUnit isTagNameUnit :=
  (agree_isSpace.not.and (agree_is (by decide)).not).and (agree_is (by decide)).not

theorem agree_isAttributeNameUnit : Agree isAttributeNameUnit isAttributeNameUnit :=
  (((agree_isSpace.not.and (agree_is (by decide)).not).and (agree_is (by decide)).not).and
    agree_isQuote.not).and (agree_is (by decide)).not

/-! ### Units beyond ASCII -/

section BeyondAscii

variable {α : Type} [CodeUnit α] {a : α}

theorem is_of_le {c : Char} (ascii : c.toNat < 128) (other : 128 ≤ code a) : is c a = false := by
  rw [is, beq_eq_false_iff_ne]
  omega

theorem isTagNameUnit_of_le (other : 128 ≤ code a) : isTagNameUnit a = true := by
  have space : isSpace a = false := by
    simp only [isSpace, Bool.or_eq_false_iff, beq_eq_false_iff_ne]
    omega
  rw [isTagNameUnit, space, is_of_le (by decide) other, is_of_le (by decide) other]
  rfl

theorem isQuote_ascii {quote : Char} (delimits : isQuote quote = true) : quote.toNat < 128 := by
  rcases isQuote_iff.mp delimits with rfl | rfl
  · decide
  · decide

/-- The quotes that open are delimiters. -/
def Delimits (quote : Option Char) : Prop := ∀ q ∈ quote, isQuote q = true

theorem delimits_none : Delimits none := by
  rintro q ⟨⟩

theorem Delimits.step {quote : Option Char} (delimits : Delimits quote) (a : α) :
    Delimits (stepQuote quote a) := by
  cases quote with
  | some q =>
    rw [stepQuote]
    split
    · exact delimits_none
    · exact delimits
  | none =>
    rw [stepQuote]
    split
    · rintro q ⟨⟩
      decide
    · split
      · rintro q ⟨⟩
        decide
      · exact delimits_none

theorem stepQuote_of_le {quote : Option Char} (delimits : Delimits quote) (other : 128 ≤ code a) :
    stepQuote quote a = quote := by
  cases quote with
  | some q =>
    rw [stepQuote, is_of_le (isQuote_ascii (delimits q rfl)) other]
    rfl
  | none =>
    rw [stepQuote, is_of_le (by decide) other, is_of_le (by decide) other]
    rfl

end BeyondAscii

theorem takeWhile_encode {onByte : UInt8 → Bool} {onChar : Char → Bool}
    (agree : Agree onByte onChar) (text : Text) :
    (encode text).takeWhile onByte = encode (text.takeWhile onChar) := by
  induction text with
  | nil => rfl
  | cons c text ih =>
    rw [encode_cons, List.takeWhile_cons]
    split
    next holds =>
      have all : ∀ byte ∈ String.utf8EncodeChar c, onByte byte = true :=
        fun byte member => (agree c byte member).trans holds
      rw [List.takeWhile_append_of_pos all, ih, encode_cons]
    next fails =>
      -- The first byte of the character fails the test as well.
      obtain ⟨byte, others, equal⟩ := exists_utf8EncodeChar c
      have first := agree c byte (by simp [equal])
      rw [equal, List.cons_append, List.takeWhile_cons_of_neg (by simp [first, fails])]
      rfl

theorem findIdx?_encode {onByte : UInt8 → Bool} {onChar : Char → Bool}
    (agree : Agree onByte onChar) (text : Text) :
    (encode text).findIdx? onByte =
      (splitAt? onChar text).map fun (passed, _) => size passed := by
  induction text with
  | nil => rfl
  | cons c text ih =>
    rw [encode_cons, splitAt?_cons]
    split
    next holds =>
      obtain ⟨byte, others, equal⟩ := exists_utf8EncodeChar c
      have first := agree c byte (by simp [equal])
      rw [equal, List.cons_append, List.findIdx?_cons, if_pos (first.trans holds)]
      rfl
    next fails =>
      -- No byte of the character is found, so the find is moved by their number.
      have none : (String.utf8EncodeChar c).findIdx? onByte = none := by
        rw [List.findIdx?_eq_none_iff]
        intro byte member
        rw [agree c byte member]
        simpa using fails
      rw [List.findIdx?_append, none, ih, String.length_utf8EncodeChar]
      cases splitAt? onChar text with
      | none => rfl
      | some cut => simp [width, Nat.add_comm]

/-! ### Places in a buffer -/

namespace Buffer

variable {buffer : Buffer} {before rest : Text}

theorem drop_bytes (whole : buffer.text = before ++ rest) :
    buffer.bytes.drop (size before) = encode rest := by
  rw [buffer.encoded, whole, encode_append, ← length_encode before, List.drop_left]

theorem length_bytes (whole : buffer.text = before ++ rest) :
    buffer.bytes.length = size before + size rest := by
  rw [buffer.encoded, whole, length_encode, size_append]

/-- At a place in front of a character stands its first byte. -/
theorem getElem?_bytes {c : Char} (whole : buffer.text = before ++ c :: rest) :
    ∃ byte ∈ String.utf8EncodeChar c, buffer.bytes[size before]? = some byte := by
  obtain ⟨byte, others, equal⟩ := exists_utf8EncodeChar c
  refine ⟨byte, by simp [equal], ?_⟩
  have first : (buffer.bytes.drop (size before))[0]? = some byte := by
    rw [drop_bytes whole, encode_cons, equal]
    rfl
  rwa [List.getElem?_drop, Nat.add_zero] at first

theorem byteAt_text {c : Char} (whole : buffer.text = before ++ c :: rest) :
    ∃ byte ∈ String.utf8EncodeChar c, buffer.byteAt (size before) = .ok byte := by
  obtain ⟨byte, member, stands⟩ := getElem?_bytes whole
  refine ⟨byte, member, ?_⟩
  rw [byteAt, stands]

theorem slice_text {part after : Text} (whole : buffer.text = before ++ part ++ after) :
    buffer.slice (size before) (size (before ++ part)) = .ok part :=
  slice_eq_ok_iff.mpr ⟨before, after, whole, rfl, rfl⟩

theorem slice_rest (whole : buffer.text = before ++ rest) :
    buffer.slice (size before) buffer.bytes.length = .ok rest := by
  have part : buffer.text = before ++ rest ++ [] := by rw [whole, List.append_nil]
  rw [length_bytes whole, ← size_append]
  exact slice_text part

theorem passWhile_text {onByte : UInt8 → Bool} {onChar : Char → Bool} (agree : Agree onByte onChar)
    (whole : buffer.text = before ++ rest) :
    buffer.passWhile onByte (size before) = .ok (size (before ++ rest.takeWhile onChar)) := by
  rw [passWhile_eq, drop_bytes whole, takeWhile_encode agree, length_encode, size_append]

theorem findByte_text {sought : Char} (ascii : sought.toNat < 128)
    (whole : buffer.text = before ++ rest) :
    buffer.findByte sought (size before) =
      (splitAt? (is sought) rest).map fun (passed, _) => size (before ++ passed) := by
  rw [findByte, KeyHarvest.findByte, drop_bytes whole, findIdx?_encode (agree_is ascii),
    Option.map_map]
  refine congrArg (Option.map · _) (funext fun cut => ?_)
  exact (size_append before cut.1).symm

end Buffer
end KeyHarvest
