import KeyHarvest.Proofs.Decoding
import KeyHarvest.Proofs.Encoding
import KeyHarvest.Proofs.TagEnd

/-!
# Cuts of undecoded bytes

Markup is delimited by ASCII units, and decoding can be cut around those. So each cut of some bytes
is the cut of their text, with the parts decoded one by one. The cuts together read a construct,
which is therefore the same before decoding and behind it (`Construct.read?_decodeLossy`).
-/
namespace KeyHarvest
open CodeUnit

/-! ### Tests of units -/

theorem code_ofNat {byte : UInt8} (ascii : byte.toNat < 128) :
    code (Char.ofNat byte.toNat) = code byte := by
  have valid : byte.toNat.isValidChar := .inl (by omega)
  rw [Char.ofNat, dif_pos valid]
  rfl

theorem is_ofNat (c : Char) {byte : UInt8} (ascii : byte.toNat < 128) :
    is c (Char.ofNat byte.toNat) = is c byte := by
  rw [is, is, code_ofNat ascii]

theorem isLetter_ofNat {byte : UInt8} (ascii : byte.toNat < 128) :
    isLetter (Char.ofNat byte.toNat) = isLetter byte := by
  rw [isLetter, isLetter, code_ofNat ascii]

theorem isTagNameUnit_ofNat {byte : UInt8} (ascii : byte.toNat < 128) :
    isTagNameUnit (Char.ofNat byte.toNat) = isTagNameUnit byte := by
  simp only [isTagNameUnit, isSpace, is, code_ofNat ascii]

theorem stepQuote_ofNat (quote : Option Char) {byte : UInt8} (ascii : byte.toNat < 128) :
    stepQuote quote (Char.ofNat byte.toNat) = stepQuote quote byte := by
  cases quote with
  | none => simp only [stepQuote, is_ofNat _ ascii]
  | some q => simp only [stepQuote, is_ofNat _ ascii]

/-- A test of units that no unit from 128 on passes. -/
structure AsciiTest where
  onCode : Nat → Bool
  fails : ∀ n, 128 ≤ n → onCode n = false

namespace AsciiTest

variable {α : Type} [CodeUnit α]

def holds (test : AsciiTest) (a : α) : Bool := test.onCode (code a)

def char (c : Char) (ascii : c.toNat < 128) : AsciiTest where
  onCode := (· == c.toNat)
  fails := by
    intro n other
    rw [beq_eq_false_iff_ne]
    omega

/-- What stands behind the `<` of a construct. -/
def construct : AsciiTest where
  onCode n := (65 ≤ n && n ≤ 90) || (97 ≤ n && n ≤ 122) || n == 47 || n == 33 || n == 63
  fails := by
    intro n other
    simp only [Bool.or_eq_false_iff, Bool.and_eq_false_iff, decide_eq_false_iff_not,
      beq_eq_false_iff_ne]
    omega

def lessThan : AsciiTest := char '<' (by decide)

def greaterThan : AsciiTest := char '>' (by decide)

def dash : AsciiTest := char '-' (by decide)

end AsciiTest

/-! ### Tests of the units ahead -/

section Ahead

variable {α : Type} [CodeUnit α]

/-- Whether the units at the start of a text pass the tests, one after the other. -/
def opensWith : List AsciiTest → List α → Bool
  | [], _ => true
  | _ :: _, [] => false
  | test :: tests, a :: rest => test.holds a && opensWith tests rest

theorem startsMarkup_eq :
    (startsMarkup : List α → Bool) = opensWith [.lessThan, .construct] := by
  funext text
  match text with
  | [] => rfl
  | [a] => simp [startsMarkup, opensWith]
  | a :: b :: rest => simp [startsMarkup, opensWith]; rfl

theorem startsCommentEnd_eq :
    (startsCommentEnd : List α → Bool) = opensWith [.dash, .dash, .greaterThan] := by
  funext text
  match text with
  | [] => rfl
  | [a] => simp [startsCommentEnd, opensWith]
  | [a, b] => simp [startsCommentEnd, opensWith]
  | a :: b :: c :: rest => simp [startsCommentEnd, opensWith, Bool.and_assoc]; rfl

theorem opensComment_eq (text : List α) :
    ((text.take 2).length == 2 && (text.take 2).all (is '-')) = opensWith [.dash, .dash] text := by
  match text with
  | [] => rfl
  | [a] => simp [opensWith]
  | a :: b :: rest => simp [opensWith]; rfl

theorem opensWith_of_le {test : AsciiTest} {a : α} (other : 128 ≤ code a)
    (tests : List AsciiTest) (rest : List α) : opensWith (test :: tests) (a :: rest) = false := by
  rw [opensWith, AsciiTest.holds, test.fails _ other, Bool.false_and]

theorem failsWithin_opensWith (test : AsciiTest) (tests : List AsciiTest) {run : List α}
    (others : ∀ a ∈ run, 128 ≤ code a) (rest : List α) :
    FailsWithin (opensWith (test :: tests)) run rest := by
  rintro left right rfl some
  obtain ⟨a, right, rfl⟩ := List.exists_cons_of_ne_nil some
  exact opensWith_of_le (others a (by simp)) tests _

end Ahead

/-- Bytes open as their text does. -/
theorem opensWith_decodeLossy (tests : List AsciiTest) (bytes : List UInt8) :
    opensWith tests (decodeLossy bytes) = opensWith tests bytes := by
  induction tests generalizing bytes with
  | nil => rfl
  | cons test tests ih =>
    cases bytes using decodingInduction with
    | nil => rfl
    | ascii byte rest small =>
      rw [decodeLossy_cons small, opensWith, opensWith, AsciiTest.holds, AsciiTest.holds,
        code_ofNat small, ih]
    | run run rest some others cut =>
      -- Both start with a unit from 128 on, which fails the test.
      obtain ⟨byte, behind, rfl⟩ := List.exists_cons_of_ne_nil some
      obtain ⟨c, after, decoded⟩ := List.exists_cons_of_ne_nil (decodeLossy_ne_nil others some)
      have high : 128 ≤ code c := le_of_mem_decodeLossy others c (by simp [decoded])
      rw [decodeLossy_append _ cut, decoded, List.cons_append, List.cons_append,
        opensWith_of_le high, opensWith_of_le (others byte (by simp))]

/-- The first byte of those that open as told is ASCII, and decoded by itself. -/
theorem exists_cons_of_opensWith {test : AsciiTest} {tests : List AsciiTest} {bytes : List UInt8}
    (opens : opensWith (test :: tests) bytes = true) :
    ∃ byte rest, bytes = byte :: rest ∧ test.holds byte = true ∧ opensWith tests rest = true ∧
      byte.toNat < 128 ∧ decodeLossy bytes = Char.ofNat byte.toNat :: decodeLossy rest := by
  cases bytes with
  | nil => cases opens
  | cons byte rest =>
    rw [opensWith, Bool.and_eq_true] at opens
    have small : byte.toNat < 128 := by
      refine Nat.lt_of_not_le fun other => ?_
      have fails := test.fails byte.toNat other
      exact absurd (opens.1.symm.trans fails) (by decide)
    exact ⟨byte, rest, rfl, opens.1, opens.2, small, decodeLossy_cons small rest⟩

/-! ### Cuts -/

/-- The parts of some bytes, each decoded. -/
def decodeParts (parts : List UInt8 × List UInt8) : Text × Text :=
  (decodeLossy parts.1, decodeLossy parts.2)

theorem head_of_append {property : UInt8 → Prop} {left right : List UInt8}
    (first : ∀ byte ∈ (left ++ right).head?, property byte) :
    ∀ byte ∈ left.head?, property byte := by
  intro byte member
  apply first
  rw [List.head?_append, member]
  rfl

theorem splitBefore_decodeLossy (test : AsciiTest) (tests : List AsciiTest) (bytes : List UInt8) :
    splitBefore (opensWith (test :: tests)) (decodeLossy bytes) =
      decodeParts (splitBefore (opensWith (test :: tests)) bytes) := by
  induction bytes using decodingInduction with
  | nil => rfl
  | ascii byte rest small ih =>
    -- The test looks at bytes further on, so it is asked of all that is left.
    rw [decodeLossy_cons small, splitBefore_cons, splitBefore_cons, ← decodeLossy_cons small,
      opensWith_decodeLossy]
    split
    · rfl
    · rw [ih, decodeParts, decodeParts, decodeLossy_cons small]
  | run run rest some others cut ih =>
    have fails := failsWithin_opensWith test tests others rest
    have fails' := failsWithin_opensWith test tests (le_of_mem_decodeLossy others)
      (decodeLossy rest)
    -- What is cut off behind the run starts as the rest does, or is empty.
    have cut' : ∀ byte ∈ (splitBefore (opensWith (test :: tests)) rest).1.head?,
        byte.toNat < 128 := by
      rw [← splitBefore_append (opensWith (test :: tests)) rest] at cut
      exact head_of_append cut
    rw [decodeLossy_append run cut, splitBefore_of_fails fails', splitBefore_of_fails fails, ih,
      decodeParts, decodeParts, decodeLossy_append run cut']

theorem splitBefore_startsMarkup_decodeLossy (bytes : List UInt8) :
    splitBefore startsMarkup (decodeLossy bytes) =
      decodeParts (splitBefore startsMarkup bytes) := by
  rw [startsMarkup_eq, startsMarkup_eq]
  exact splitBefore_decodeLossy _ _ bytes

theorem splitBefore_startsCommentEnd_decodeLossy (bytes : List UInt8) :
    splitBefore startsCommentEnd (decodeLossy bytes) =
      decodeParts (splitBefore startsCommentEnd bytes) := by
  rw [startsCommentEnd_eq, startsCommentEnd_eq]
  exact splitBefore_decodeLossy _ _ bytes

theorem forall_not_is_decodeLossy {c : Char} (ascii : c.toNat < 128) (bytes : List UInt8) :
    (∀ d ∈ decodeLossy bytes, is c d = false) ↔ ∀ byte ∈ bytes, is c byte = false := by
  induction bytes using decodingInduction with
  | nil => simp
  | ascii byte rest small ih =>
    rw [decodeLossy_cons small, List.forall_mem_cons, List.forall_mem_cons, is_ofNat c small, ih]
  | run run rest some others cut ih =>
    have none : ∀ byte ∈ run, is c byte = false :=
      fun byte member => is_of_le ascii (others byte member)
    have none' : ∀ d ∈ decodeLossy run, is c d = false :=
      fun d member => is_of_le ascii (le_of_mem_decodeLossy others d member)
    rw [decodeLossy_append run cut, List.forall_mem_append, List.forall_mem_append, ih]
    exact and_congr_left fun _ => iff_of_true none' none

theorem eq_of_is {byte : UInt8} {c : Char} (ascii : c.toNat < 128) (found : is c byte = true) :
    byte.toNat < 128 ∧ Char.ofNat byte.toNat = c := by
  have same : byte.toNat = c.toNat := by simpa [is, code] using found
  rw [same]
  exact ⟨ascii, Char.ofNat_toNat c⟩

theorem splitAt?_decodeLossy {c : Char} (ascii : c.toNat < 128) (bytes : List UInt8) :
    splitAt? (is c) (decodeLossy bytes) = (splitAt? (is c) bytes).map decodeParts := by
  cases found : splitAt? (is c) bytes with
  | none =>
    rw [splitAt?_eq_none_iff] at found
    exact splitAt?_eq_none_iff.mpr ((forall_not_is_decodeLossy ascii bytes).mpr found)
  | some parts =>
    obtain ⟨unit, rfl, holds, first⟩ := splitAt?_eq_some_iff.mp found
    obtain ⟨small, same⟩ := eq_of_is ascii holds
    rw [Option.map_some, decodeLossy_append_cons _ small, same]
    exact splitAt?_eq_some_iff.mpr
      ⟨c, rfl, is_iff.mpr rfl, (forall_not_is_decodeLossy ascii parts.1).mpr first⟩

/-! ### The end of a tag -/

theorem quoteAfter_of_le {α : Type} [CodeUnit α] {quote : Option Char} (delimits : Delimits quote)
    {run : List α} (others : ∀ a ∈ run, 128 ≤ code a) : quoteAfter quote run = quote := by
  induction run with
  | nil => rfl
  | cons a run ih =>
    rw [quoteAfter_cons, stepQuote_of_le delimits (others a (by simp))]
    exact ih fun b member => others b (by simp [member])

theorem quoteAfter_decodeLossy {quote : Option Char} (delimits : Delimits quote)
    (bytes : List UInt8) : quoteAfter quote (decodeLossy bytes) = quoteAfter quote bytes := by
  induction bytes using decodingInduction generalizing quote with
  | nil => rfl
  | ascii byte rest small ih =>
    rw [decodeLossy_cons small, quoteAfter_cons, quoteAfter_cons, stepQuote_ofNat quote small]
    exact ih (delimits.step byte)
  | run run rest some others cut ih =>
    rw [decodeLossy_append run cut, quoteAfter_append, quoteAfter_append,
      quoteAfter_of_le delimits (le_of_mem_decodeLossy others), quoteAfter_of_le delimits others]
    exact ih delimits

theorem noBareEnd_decodeLossy {quote : Option Char} (delimits : Delimits quote)
    (bytes : List UInt8) : NoBareEnd quote (decodeLossy bytes) ↔ NoBareEnd quote bytes := by
  induction bytes using decodingInduction generalizing quote with
  | nil => exact iff_of_true (noBareEnd_nil quote) (noBareEnd_nil quote)
  | ascii byte rest small ih =>
    rw [decodeLossy_cons small, noBareEnd_cons, noBareEnd_cons, is_ofNat '>' small,
      stepQuote_ofNat quote small, ih (delimits.step byte)]
  | run run rest some others cut ih =>
    have quiet : NoBareEnd quote run :=
      noBareEnd_of_none fun byte member => is_of_le (by decide) (others byte member)
    have quiet' : NoBareEnd quote (decodeLossy run) :=
      noBareEnd_of_none fun c member => is_of_le (by decide) (le_of_mem_decodeLossy others c member)
    rw [decodeLossy_append run cut, noBareEnd_append, noBareEnd_append,
      quoteAfter_of_le delimits (le_of_mem_decodeLossy others), quoteAfter_of_le delimits others,
      ih delimits]
    simp only [quiet, quiet', true_and]

theorem EndsTag.decodeLossy {attributes after : List UInt8} {close : UInt8}
    (small : close.toNat < 128) (ends : EndsTag attributes close after) :
    EndsTag (decodeLossy attributes) (Char.ofNat close.toNat) (decodeLossy after) := by
  rcases ends with ⟨balanced, quoted⟩ | ⟨first, quoted⟩
  · -- The quotes of the attributes are closed.
    left
    constructor
    · exact (quoteAfter_decodeLossy delimits_none attributes).trans balanced
    · exact (noBareEnd_decodeLossy delimits_none attributes).mpr quoted
  · -- The quotes never balance, and the first `>` is the end.
    right
    constructor
    · exact (forall_not_is_decodeLossy (by decide) attributes).mpr first
    · rw [← decodeLossy_append_cons attributes small]
      exact (noBareEnd_decodeLossy delimits_none _).mpr quoted

theorem splitTagEnd_decodeLossy (bytes : List UInt8) :
    splitTagEnd (decodeLossy bytes) = (splitTagEnd bytes).map decodeParts := by
  cases found : splitTagEnd bytes with
  | none =>
    rw [splitTagEnd_eq_none_iff] at found
    exact splitTagEnd_eq_none_iff.mpr ((forall_not_is_decodeLossy (by decide) bytes).mpr found)
  | some parts =>
    obtain ⟨close, rfl, holds, ends⟩ := splitTagEnd_eq_some_iff.mp found
    obtain ⟨small, same⟩ := eq_of_is (by decide) holds
    have ends := ends.decodeLossy small
    rw [same] at ends
    rw [Option.map_some, decodeLossy_append_cons _ small, same]
    exact splitTagEnd_eq_some_iff.mpr ⟨'>', rfl, is_iff.mpr rfl, ends⟩

/-! ### Constructs -/

/-- A name of a tag is cut off where it is cut off in the text. -/
theorem tagName_decodeLossy (bytes : List UInt8) :
    (decodeLossy bytes).takeWhile isTagNameUnit = decodeLossy (bytes.takeWhile isTagNameUnit) ∧
      (decodeLossy bytes).dropWhile isTagNameUnit =
        decodeLossy (bytes.dropWhile isTagNameUnit) := by
  induction bytes using decodingInduction with
  | nil => exact ⟨rfl, rfl⟩
  | ascii byte rest small ih =>
    rw [decodeLossy_cons small, List.takeWhile_cons, List.takeWhile_cons, List.dropWhile_cons,
      List.dropWhile_cons, isTagNameUnit_ofNat small]
    split
    · rw [decodeLossy_cons small, ih.1]
      exact ⟨rfl, ih.2⟩
    · exact ⟨rfl, (decodeLossy_cons small rest).symm⟩
  | run run rest some others cut ih =>
    -- The whole run belongs to the name.
    have named : ∀ byte ∈ run, isTagNameUnit byte = true :=
      fun byte member => isTagNameUnit_of_le (others byte member)
    have named' : ∀ c ∈ decodeLossy run, isTagNameUnit c = true :=
      fun c member => isTagNameUnit_of_le (le_of_mem_decodeLossy others c member)
    have cut' : ∀ byte ∈ (rest.takeWhile isTagNameUnit).head?, byte.toNat < 128 := by
      rw [← List.takeWhile_append_dropWhile (p := isTagNameUnit) (l := rest)] at cut
      exact head_of_append cut
    rw [decodeLossy_append run cut, List.takeWhile_append_of_pos named',
      List.takeWhile_append_of_pos named, List.dropWhile_append_of_pos named',
      List.dropWhile_append_of_pos named, decodeLossy_append run cut', ih.1]
    exact ⟨rfl, ih.2⟩

namespace Construct

/-- A construct of some bytes, with its parts decoded. -/
def decode : Construct UInt8 → Construct Char
  | .comment inner => .comment (decodeLossy inner)
  | .directive body => .directive (decodeLossy body)
  | .tag name attributes => .tag (decodeLossy name) (decodeLossy attributes)

def decodeReading (reading : Construct UInt8 × List UInt8) : Construct Char × Text :=
  (reading.1.decode, decodeLossy reading.2)

/-- Reads a comment behind its `<!`. -/
def readComment? {α : Type} [CodeUnit α] (text : List α) : Option (Construct α × List α) :=
  match splitBefore startsCommentEnd text with
  | (inner, _ :: _ :: _ :: after) => some (.comment inner, after)
  | _ => none

theorem readComment?_decodeLossy (bytes : List UInt8) :
    readComment? (decodeLossy bytes) = (readComment? bytes).map decodeReading := by
  rw [readComment?, readComment?, splitBefore_startsCommentEnd_decodeLossy]
  cases cut : splitBefore startsCommentEnd bytes with
  | mk inner marks =>
    obtain ⟨-, -, found⟩ := splitBefore_eq_iff.mp cut
    by_cases ended : marks = []
    · subst ended
      rfl
    · -- The end of a comment is three ASCII bytes.
      have opens := found ended
      rw [startsCommentEnd_eq] at opens
      obtain ⟨a, marks, rfl, -, opens, -, first⟩ := exists_cons_of_opensWith opens
      obtain ⟨b, marks, rfl, -, opens, -, second⟩ := exists_cons_of_opensWith opens
      obtain ⟨c, after, rfl, -, -, -, third⟩ := exists_cons_of_opensWith opens
      rw [decodeParts, first, second, third]
      rfl

/-- The three kinds of constructs, told apart by what stands behind the `<`. -/
theorem read?_cons_cons {α : Type} [CodeUnit α] (first a : α) (rest : List α) :
    read? (first :: a :: rest) =
      if is '!' a && opensWith [.dash, .dash] rest then readComment? rest
      else if isLetter a then
        (splitTagEnd ((a :: rest).dropWhile isTagNameUnit)).map fun (attributes, after) =>
          (.tag ((a :: rest).takeWhile isTagNameUnit) attributes, after)
      else (splitAt? (is '>') (a :: rest)).map fun (body, after) => (.directive body, after) := by
  rw [← opensComment_eq, ← Bool.and_assoc]
  rfl

/-- The construct that some bytes start with is the one that their text starts with. -/
theorem read?_decodeLossy {bytes : List UInt8} (starts : startsMarkup bytes = true) :
    read? (decodeLossy bytes) = (read? bytes).map decodeReading := by
  rw [startsMarkup_eq] at starts
  -- The first two bytes are ASCII and tell the kind of the construct.
  obtain ⟨first, others, rfl, -, opens, -, decoded⟩ := exists_cons_of_opensWith starts
  obtain ⟨a, rest, rfl, -, -, small, decoded'⟩ := exists_cons_of_opensWith opens
  rw [decoded, decoded', read?_cons_cons, read?_cons_cons, is_ofNat '!' small,
    isLetter_ofNat small, opensWith_decodeLossy, readComment?_decodeLossy, ← decoded',
    (tagName_decodeLossy (a :: rest)).1, (tagName_decodeLossy (a :: rest)).2,
    splitTagEnd_decodeLossy, splitAt?_decodeLossy (by decide)]
  split
  · rfl
  · split
    · rw [Option.map_map, Option.map_map]
      rfl
    · rw [Option.map_map, Option.map_map]
      rfl

/-- Bytes are taken one by one, so the construct leaves the bytes behind its size. -/
theorem drop_of_read? {bytes after : List UInt8} {construct : Construct UInt8}
    (found : read? bytes = some (construct, after)) : bytes.drop construct.size = after := by
  match bytes, found with
  | first :: a :: rest, found =>
    rw [read?_cons_cons] at found
    split at found
    · -- In each case the bytes are put together again from the parts that the reader cuts.
      rw [readComment?] at found
      split at found
      next inner b c d after' cut =>
        obtain ⟨rfl, -, -⟩ := splitBefore_eq_iff.mp cut
        cases found
        have whole : first :: a :: (inner ++ b :: c :: d :: after) =
            (first :: a :: (inner ++ [b, c, d])) ++ after := by simp
        rw [whole]
        apply List.drop_left'
        simp [size, size_bytes]
        omega
      next => cases found
    · split at found
      · obtain ⟨⟨attributes, after'⟩, cut, equal⟩ := Option.map_eq_some_iff.mp found
        obtain ⟨close, whole, -, -⟩ := splitTagEnd_eq_some_iff.mp cut
        cases equal
        have named := List.takeWhile_append_dropWhile (p := isTagNameUnit) (l := a :: rest)
        rw [whole] at named
        generalize (a :: rest).takeWhile isTagNameUnit = name at named ⊢
        have whole : first :: (name ++ (attributes ++ close :: after)) =
            (first :: (name ++ attributes ++ [close])) ++ after := by simp
        rw [← named, whole]
        apply List.drop_left'
        simp [size, size_bytes]
        omega
      · obtain ⟨⟨body, after'⟩, cut, equal⟩ := Option.map_eq_some_iff.mp found
        obtain ⟨close, whole, -, -⟩ := splitAt?_eq_some_iff.mp cut
        cases equal
        have whole' : first :: (body ++ close :: after) =
            (first :: (body ++ [close])) ++ after := by simp
        rw [whole, whole']
        apply List.drop_left'
        simp [size, size_bytes]
        omega

end Construct

end KeyHarvest
