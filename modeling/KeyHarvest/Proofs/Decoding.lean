import KeyHarvest.Proofs.Cuts
import KeyHarvest.Text.Utf8
import Mathlib.Algebra.Group.Nat.Defs

/-!
# Decoding around ASCII

A byte below 128 continues no character: it ends whatever is unfinished and is a character of its
own. Bytes can therefore be cut in front of such a byte, and each part decoded on its own
(`decodeLossy_append`). All other bytes, malformed or not, become characters from 128 on, and at
least one where there is a byte. With `decodingInduction` a statement about decoded bytes is proved
without the automaton that decodes them.
-/
namespace KeyHarvest

/-! ### Reading on from an unfinished character -/

/-- The text of the bytes that follow on an unfinished character. -/
def decodeFrom (unfinished : Option Unfinished) (bytes : List UInt8) : Text :=
  (decodeUnits.go [] unfinished bytes).map (·.getD replacement)

theorem decodeUnits_go (seen : List (Option Char)) (unfinished : Option Unfinished)
    (bytes : List UInt8) :
    decodeUnits.go seen unfinished bytes = seen.reverse ++ decodeUnits.go [] unfinished bytes := by
  induction bytes generalizing seen unfinished with
  | nil => cases unfinished <;> simp [decodeUnits.go]
  | cons byte rest ih =>
    simp only [decodeUnits.go]
    rw [ih, ih ((feed unfinished byte.toNat).1.reverse ++ [])]
    simp

@[simp] theorem decodeFrom_nil (unfinished : Option Unfinished) :
    decodeFrom unfinished [] = if unfinished.isSome then [replacement] else [] := by
  cases unfinished <;> rfl

theorem decodeFrom_cons (unfinished : Option Unfinished) (byte : UInt8) (rest : List UInt8) :
    decodeFrom unfinished (byte :: rest) =
      (feed unfinished byte.toNat).1.map (·.getD replacement) ++
        decodeFrom (feed unfinished byte.toNat).2 rest := by
  simp only [decodeFrom, decodeUnits.go]
  rw [decodeUnits_go]
  simp

theorem decodeLossy_eq_decodeFrom (bytes : List UInt8) :
    decodeLossy bytes = decodeFrom none bytes := rfl

@[simp] theorem decodeLossy_nil : decodeLossy [] = [] := rfl

/-! ### What an unfinished character can become -/

/-- Whatever `count` more bytes hold, the code that starts with the bits of `value` is from 128 on,
and a character has it. -/
def ScalarAhead : Nat → Nat → Prop
  | 0, value => 128 ≤ value ∧ (value < 0xD800 ∨ 0xE000 ≤ value ∧ value < 0x110000)
  | count + 1, value => ∀ bits < 64, ScalarAhead count (value * 64 + bits)

/-- The codes that a value leads to are in a row. -/
theorem scalarAhead_of_range {count value : Nat} (least : 128 ≤ value * 64 ^ count)
    (most : (value + 1) * 64 ^ count ≤ 0xD800 ∨
      0xE000 ≤ value * 64 ^ count ∧ (value + 1) * 64 ^ count ≤ 0x110000) :
    ScalarAhead count value := by
  induction count generalizing value with
  | zero =>
    rw [Nat.pow_zero, Nat.mul_one] at least most
    constructor
    · exact least
    · omega
  | succ count ih =>
    intro bits small
    have lower : value * 64 ^ (count + 1) ≤ (value * 64 + bits) * 64 ^ count := by
      rw [Nat.pow_succ', ← Nat.mul_assoc]
      exact Nat.mul_le_mul_right _ (by omega)
    have upper : (value * 64 + bits + 1) * 64 ^ count ≤ (value + 1) * 64 ^ (count + 1) := by
      rw [Nat.pow_succ', ← Nat.mul_assoc]
      exact Nat.mul_le_mul_right _ (by omega)
    apply ih
    · exact Nat.le_trans least lower
    · omega

/-- No byte below 128 can come next, and any bytes that can lead to a character from 128 on. -/
structure Unfinished.Sound (character : Unfinished) : Prop where
  tail : 0x80 ≤ character.low
  ahead : ∀ byte, character.low ≤ byte → byte ≤ character.high →
    ScalarAhead (character.owed - 1) (character.value * 64 + (byte - 0x80))

namespace Unfinished.Sound

theorem of_range {value owed low high : Nat} (tail : 0x80 ≤ low)
    (ahead : ∀ byte, low ≤ byte → byte ≤ high →
      ScalarAhead (owed - 1) (value * 64 + (byte - 0x80))) : Sound ⟨value, owed, low, high⟩ :=
  ⟨tail, ahead⟩

/-- The least and the greatest next byte bound what a character can become. -/
theorem of_ends {value count low high : Nat} (tail : 0x80 ≤ low)
    (least : 128 ≤ (value * 64 + (low - 0x80)) * 64 ^ count)
    (most : (value * 64 + (high - 0x80) + 1) * 64 ^ count ≤ 0xD800 ∨
      0xE000 ≤ (value * 64 + (low - 0x80)) * 64 ^ count ∧
        (value * 64 + (high - 0x80) + 1) * 64 ^ count ≤ 0x110000) :
    Sound ⟨value, count + 1, low, high⟩ := by
  apply of_range tail
  intro byte lowest highest
  have lower : (value * 64 + (low - 0x80)) * 64 ^ count ≤
      (value * 64 + (byte - 0x80)) * 64 ^ count := Nat.mul_le_mul_right _ (by omega)
  have upper : (value * 64 + (byte - 0x80) + 1) * 64 ^ count ≤
      (value * 64 + (high - 0x80) + 1) * 64 ^ count := Nat.mul_le_mul_right _ (by omega)
  rw [Nat.add_sub_cancel]
  apply scalarAhead_of_range
  · exact Nat.le_trans least lower
  · omega

variable {character : Unfinished} {byte : Nat}

theorem step (sound : character.Sound) (low : character.low ≤ byte) (high : byte ≤ character.high)
    (more : ¬ character.owed ≤ 1) :
    Sound ⟨character.value * 64 + (byte - 0x80), character.owed - 1, 0x80, 0xBF⟩ := by
  have ahead := sound.ahead byte low high
  have owed : character.owed - 1 = character.owed - 1 - 1 + 1 := by omega
  rw [owed] at ahead
  apply of_range (Nat.le_refl _)
  intro next least greatest
  exact ahead (next - 0x80) (by omega)

theorem complete (sound : character.Sound) (low : character.low ≤ byte)
    (high : byte ≤ character.high) (last : character.owed ≤ 1) :
    128 ≤ (Char.ofNat (character.value * 64 + (byte - 0x80))).toNat := by
  have ahead := sound.ahead byte low high
  rw [Nat.sub_eq_zero_of_le last] at ahead
  obtain ⟨other, scalar⟩ := ahead
  have valid : (character.value * 64 + (byte - 0x80)).isValidChar := by
    simp only [Nat.isValidChar]
    omega
  rw [Char.ofNat, dif_pos valid]
  exact other

end Unfinished.Sound

/-- What may be unfinished in front of some bytes is sound. -/
def SoundBefore (unfinished : Option Unfinished) : Prop :=
  ∀ character ∈ unfinished, character.Sound

theorem soundBefore_none : SoundBefore none := by
  intro character member
  cases member

theorem soundBefore_some {character : Unfinished} (sound : character.Sound) :
    SoundBefore (some character) := by
  rintro other ⟨⟩
  exact sound

/-- A byte from 128 on that stands first is malformed by itself, or a character starts with it. -/
theorem feedFirst_other {byte : Nat} (other : 128 ≤ byte) :
    feedFirst byte = ([none], none) ∨
      ∃ character, feedFirst byte = ([], some character) ∧ character.Sound := by
  rw [feedFirst, if_neg (Nat.not_lt.mpr other)]
  -- A tail byte, or the start of an overlong form.
  by_cases early : byte < 0xC2
  · rw [if_pos early]
    exact .inl rfl
  rw [if_neg early]
  by_cases two : byte < 0xE0
  · rw [if_pos two]
    exact .inr ⟨_, rfl, .of_ends (by decide) (by omega) (by omega)⟩
  rw [if_neg two]
  -- Of three bytes the second is bounded where the first is 0xE0 or 0xED: the codes below 0x800
  -- have shorter forms, and from 0xD800 on there are surrogates.
  by_cases least3 : byte = 0xE0
  · rw [if_pos least3]
    exact .inr ⟨_, rfl, .of_ends (by decide) (by decide) (by decide)⟩
  rw [if_neg least3]
  by_cases surrogates : byte = 0xED
  · rw [if_pos surrogates]
    exact .inr ⟨_, rfl, .of_ends (by decide) (by decide) (by decide)⟩
  rw [if_neg surrogates]
  by_cases three : byte < 0xF0
  · rw [if_pos three]
    exact .inr ⟨_, rfl, .of_ends (by decide) (by omega) (by omega)⟩
  rw [if_neg three]
  -- Of four bytes the second is bounded where the first is 0xF0 or 0xF4: the codes below 0x10000
  -- have shorter forms, and there are none from 0x110000 on.
  by_cases least4 : byte = 0xF0
  · rw [if_pos least4]
    exact .inr ⟨_, rfl, .of_ends (by decide) (by decide) (by decide)⟩
  rw [if_neg least4]
  by_cases four : byte < 0xF4
  · rw [if_pos four]
    exact .inr ⟨_, rfl, .of_ends (by decide) (by omega) (by omega)⟩
  rw [if_neg four]
  by_cases greatest : byte = 0xF4
  · rw [if_pos greatest]
    exact .inr ⟨_, rfl, .of_ends (by decide) (by decide) (by decide)⟩
  rw [if_neg greatest]
  -- No character starts with a byte from 0xF5 on.
  exact .inl rfl

/-- A byte below 128 ends what is unfinished and is a character of its own. -/
theorem feed_ascii {unfinished : Option Unfinished} (sound : SoundBefore unfinished) {byte : Nat}
    (ascii : byte < 128) :
    feed unfinished byte =
      ((if unfinished.isSome then [none] else []) ++ [some (Char.ofNat byte)], none) := by
  have first : feedFirst byte = ([some (Char.ofNat byte)], none) := by
    rw [feedFirst, if_pos ascii]
  cases unfinished with
  | none => exact first
  | some character =>
    have tail := (sound character rfl).tail
    -- No byte that may come next is that low.
    have refused : ¬ (character.low ≤ byte ∧ byte ≤ character.high) := by omega
    rw [feed, if_neg refused, first]
    rfl

/-- What comes of a byte from 128 on: the characters that it completes are from 128 on, what it
leaves unfinished is sound, and one of both is there. -/
structure BeyondAscii (fed : Fed) : Prop where
  completed : ∀ unit ∈ fed.1, 128 ≤ (unit.getD replacement).toNat
  unfinished : SoundBefore fed.2
  some : fed.1 ≠ [] ∨ fed.2.isSome = true

theorem beyondAscii_malformed : BeyondAscii ([none], none) := by
  refine ⟨?_, soundBefore_none, .inl (by simp)⟩
  intro unit member
  rw [List.mem_singleton.mp member]
  decide

theorem beyondAscii_feedFirst {byte : Nat} (other : 128 ≤ byte) : BeyondAscii (feedFirst byte) := by
  rcases feedFirst_other other with malformed | ⟨character, started, sound⟩
  · rw [malformed]
    exact beyondAscii_malformed
  · rw [started]
    exact ⟨by simp, soundBefore_some sound, .inr rfl⟩

theorem beyondAscii_feed {unfinished : Option Unfinished} (sound : SoundBefore unfinished)
    {byte : Nat} (other : 128 ≤ byte) : BeyondAscii (feed unfinished byte) := by
  cases unfinished with
  | none => exact beyondAscii_feedFirst other
  | some character =>
    have sound := sound character rfl
    rw [feed]
    split
    next fits =>
      split
      next last =>
        refine ⟨?_, soundBefore_none, .inl (by simp)⟩
        intro unit member
        rw [List.mem_singleton.mp member, Option.getD_some]
        exact sound.complete fits.1 fits.2 last
      next more =>
        exact ⟨by simp, soundBefore_some (sound.step fits.1 fits.2 more), .inr rfl⟩
    next refused =>
      -- The byte ends a malformed run and starts afresh.
      obtain ⟨completed, unfinished, -⟩ := beyondAscii_feedFirst other
      refine ⟨?_, unfinished, .inl (by simp)⟩
      intro unit member
      rcases List.mem_cons.mp member with rfl | member
      · decide
      · exact completed unit member

theorem soundBefore_feed {unfinished : Option Unfinished} (sound : SoundBefore unfinished)
    (byte : Nat) : SoundBefore (feed unfinished byte).2 := by
  by_cases ascii : byte < 128
  · rw [feed_ascii sound ascii]
    exact soundBefore_none
  · exact (beyondAscii_feed sound (Nat.le_of_not_lt ascii)).unfinished

/-! ### Cutting around ASCII -/

theorem decodeFrom_ascii {unfinished : Option Unfinished} (sound : SoundBefore unfinished)
    {byte : UInt8} (ascii : byte.toNat < 128) (rest : List UInt8) :
    decodeFrom unfinished (byte :: rest) =
      decodeFrom unfinished [] ++ Char.ofNat byte.toNat :: decodeLossy rest := by
  rw [decodeFrom_cons, feed_ascii sound ascii, decodeFrom_nil]
  cases unfinished <;> simp [decodeLossy_eq_decodeFrom]

/-- An ASCII byte ends what is unfinished, so nothing in front of it has a part in what follows. -/
theorem decodeFrom_append {unfinished : Option Unfinished} (sound : SoundBefore unfinished)
    (left : List UInt8) {right : List UInt8} (cut : ∀ byte ∈ right.head?, byte.toNat < 128) :
    decodeFrom unfinished (left ++ right) = decodeFrom unfinished left ++ decodeLossy right := by
  induction left generalizing unfinished with
  | nil =>
    cases right with
    | nil => simp
    | cons byte rest =>
      have ascii := cut byte rfl
      rw [List.nil_append, decodeFrom_ascii sound ascii, decodeLossy_eq_decodeFrom (byte :: rest),
        decodeFrom_ascii soundBefore_none ascii]
      rfl
  | cons byte left ih =>
    rw [List.cons_append, decodeFrom_cons, decodeFrom_cons, ih (soundBefore_feed sound _),
      List.append_assoc]

/-- Bytes can be cut in front of ASCII. -/
theorem decodeLossy_append (left : List UInt8) {right : List UInt8}
    (cut : ∀ byte ∈ right.head?, byte.toNat < 128) :
    decodeLossy (left ++ right) = decodeLossy left ++ decodeLossy right :=
  decodeFrom_append soundBefore_none left cut

theorem decodeLossy_cons {byte : UInt8} (ascii : byte.toNat < 128) (rest : List UInt8) :
    decodeLossy (byte :: rest) = Char.ofNat byte.toNat :: decodeLossy rest :=
  decodeFrom_ascii soundBefore_none ascii rest

/-- Bytes can be cut around an ASCII byte. -/
theorem decodeLossy_append_cons (left : List UInt8) {byte : UInt8} (ascii : byte.toNat < 128)
    (right : List UInt8) :
    decodeLossy (left ++ byte :: right) =
      decodeLossy left ++ Char.ofNat byte.toNat :: decodeLossy right := by
  rw [decodeLossy_append left (by simpa using ascii), decodeLossy_cons ascii]

/-! ### Runs without ASCII -/

theorem le_of_mem_decodeFrom {unfinished : Option Unfinished} (sound : SoundBefore unfinished)
    {run : List UInt8} (others : ∀ byte ∈ run, 128 ≤ byte.toNat) :
    ∀ c ∈ decodeFrom unfinished run, 128 ≤ c.toNat := by
  induction run generalizing unfinished with
  | nil =>
    intro c member
    rw [decodeFrom_nil] at member
    split at member
    · rw [List.mem_singleton.mp member]
      decide
    · cases member
  | cons byte run ih =>
    obtain ⟨completed, unfinished, -⟩ := beyondAscii_feed sound (others byte (by simp))
    intro c member
    rw [decodeFrom_cons, List.mem_append] at member
    rcases member with member | member
    · obtain ⟨unit, fed, rfl⟩ := List.mem_map.mp member
      exact completed unit fed
    · exact ih unfinished (fun byte member => others byte (by simp [member])) c member

theorem decodeFrom_ne_nil {unfinished : Option Unfinished} (sound : SoundBefore unfinished)
    {run : List UInt8} (others : ∀ byte ∈ run, 128 ≤ byte.toNat)
    (some : unfinished.isSome = true ∨ run ≠ []) : decodeFrom unfinished run ≠ [] := by
  induction run generalizing unfinished with
  | nil =>
    rw [decodeFrom_nil, if_pos (some.resolve_right (by simp))]
    simp
  | cons byte run ih =>
    obtain ⟨-, unfinished, left⟩ := beyondAscii_feed sound (others byte (by simp))
    rw [decodeFrom_cons]
    rcases left with completed | unfinishedIsSome
    · simp [completed]
    · have later := ih unfinished (fun byte member => others byte (by simp [member]))
        (.inl unfinishedIsSome)
      simp [later]

theorem le_of_mem_decodeLossy {run : List UInt8} (others : ∀ byte ∈ run, 128 ≤ byte.toNat) :
    ∀ c ∈ decodeLossy run, 128 ≤ c.toNat :=
  le_of_mem_decodeFrom soundBefore_none others

theorem decodeLossy_ne_nil {run : List UInt8} (others : ∀ byte ∈ run, 128 ≤ byte.toNat)
    (some : run ≠ []) : decodeLossy run ≠ [] :=
  decodeFrom_ne_nil soundBefore_none others (.inr some)

/-- Bytes are ASCII bytes and, between them, runs of others that are as long as can be. -/
@[elab_as_elim]
theorem decodingInduction {motive : List UInt8 → Prop} (nil : motive [])
    (ascii : ∀ byte rest, byte.toNat < 128 → motive rest → motive (byte :: rest))
    (run : ∀ run rest, run ≠ [] → (∀ byte ∈ run, 128 ≤ byte.toNat) →
      (∀ byte ∈ rest.head?, byte.toNat < 128) → motive rest → motive (run ++ rest))
    (bytes : List UInt8) : motive bytes := by
  induction length : bytes.length using Nat.strongRecOn generalizing bytes with
  | ind bound ih =>
    subst length
    cases bytes with
    | nil => exact nil
    | cons byte rest =>
      by_cases small : byte.toNat < 128
      · exact ascii byte rest small (ih rest.length (by simp) rest rfl)
      · have whole := List.takeWhile_append_dropWhile
          (p := fun byte : UInt8 => decide (128 ≤ byte.toNat)) (l := byte :: rest)
        have shorter := length_dropWhile_le (fun byte : UInt8 => decide (128 ≤ byte.toNat)) rest
        have first : (byte :: rest).dropWhile (fun byte => decide (128 ≤ byte.toNat)) =
            rest.dropWhile (fun byte => decide (128 ≤ byte.toNat)) := by
          rw [List.dropWhile_cons, if_pos (by simpa using small)]
        rw [← whole]
        apply run
        · rw [List.takeWhile_cons, if_pos (by simpa using small)]
          simp
        · intro byte member
          simpa using all_takeWhile byte member
        · intro byte member
          simpa using head_dropWhile _ _ byte member
        · rw [first]
          exact ih _ (Nat.lt_succ_of_le shorter) _ rfl

end KeyHarvest
