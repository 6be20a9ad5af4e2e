import KeyHarvest.Proofs.Decoding
import KeyHarvest.Proofs.Encoding

/-!
# Encoded texts are decoded again

The first byte of a character tells how many bytes are owed and which one may come next, and every
further byte adds six bits (`feed_lead_two`, `feed_lead_three`, `feed_lead_four`, `feed_bits`). So
the bytes of a character complete that character, and a text is decoded from its bytes
(`decode?_encode`).
-/
namespace KeyHarvest

/-! ### Single bytes -/

theorem feed_lead_two :
    ∀ lead < 32, 2 ≤ lead → feed none (lead + 192) = ([], some ⟨lead, 1, 0x80, 0xBF⟩) := by
  decide

/-- Overlong forms and surrogates are refused at the second byte. -/
theorem feed_lead_three :
    ∀ lead < 16, feed none (lead + 224) =
      ([], some ⟨lead, 2, if lead = 0 then 0xA0 else 0x80, if lead = 13 then 0x9F else 0xBF⟩) := by
  decide

theorem feed_lead_four :
    ∀ lead < 5, feed none (lead + 240) =
      ([], some ⟨lead, 3, if lead = 0 then 0x90 else 0x80, if lead = 4 then 0x8F else 0xBF⟩) := by
  decide

/-! ### Characters -/

section Steps

variable {value owed low high bits : Nat} (rest : List UInt8)

theorem decodeUnits_go_cons (unfinished : Option Unfinished) {byte : Nat} (small : byte < 256) :
    decodeUnits.go [] unfinished (UInt8.ofNat byte :: rest) =
      (feed unfinished byte).1 ++ decodeUnits.go [] (feed unfinished byte).2 rest := by
  rw [decodeUnits.go, UInt8.toNat_ofNat_of_lt' small]
  dsimp only
  rw [decodeUnits_go]
  simp

theorem decodeUnits_go_first {lead : Nat} {character : Unfinished} (small : lead < 256)
    (starts : feed none lead = ([], some character)) :
    decodeUnits.go [] none (UInt8.ofNat lead :: rest) =
      decodeUnits.go [] (some character) rest := by
  rw [decodeUnits_go_cons rest none small, starts]
  rfl

theorem feed_bits (lower : low ≤ bits + 128) (upper : bits + 128 ≤ high) :
    feed (some ⟨value, owed, low, high⟩) (bits + 128) =
      if owed ≤ 1 then ([some (Char.ofNat (value * 64 + bits))], none)
      else ([], some ⟨value * 64 + bits, owed - 1, 0x80, 0xBF⟩) := by
  rw [feed, if_pos ⟨lower, upper⟩, Nat.add_sub_cancel]

theorem decodeUnits_go_more (more : 2 ≤ owed) (small : bits < 64) (lower : low ≤ bits + 128)
    (upper : bits + 128 ≤ high) :
    decodeUnits.go [] (some ⟨value, owed, low, high⟩) (UInt8.ofNat (bits + 128) :: rest) =
      decodeUnits.go [] (some ⟨value * 64 + bits, owed - 1, 0x80, 0xBF⟩) rest := by
  rw [decodeUnits_go_cons rest _ (by omega), feed_bits lower upper, if_neg (by omega)]
  rfl

theorem decodeUnits_go_last (small : bits < 64) :
    decodeUnits.go [] (some ⟨value, 1, 0x80, 0xBF⟩) (UInt8.ofNat (bits + 128) :: rest) =
      some (Char.ofNat (value * 64 + bits)) :: decodeUnits.go [] none rest := by
  rw [decodeUnits_go_cons rest _ (by omega), feed_bits (by omega) (by omega),
    if_pos (Nat.le_refl 1)]
  rfl

end Steps

/-- The bytes of a character complete it and leave nothing unfinished. -/
theorem decodeUnits_go_utf8EncodeChar (c : Char) (rest : List UInt8) :
    decodeUnits.go [] none (String.utf8EncodeChar c ++ rest) =
      some c :: decodeUnits.go [] none rest := by
  have same : Char.ofNat c.val.toNat = c := Char.ofNat_toNat c
  have valid : c.val.toNat < 0xD800 ∨ 0xDFFF < c.val.toNat ∧ c.val.toNat < 0x110000 := c.valid
  simp only [String.utf8EncodeChar]
  generalize c.val.toNat = code at same valid
  -- One case for each number of bytes.
  split
  next one =>
    have ascii : feed none code = ([some (Char.ofNat code)], none) :=
      feed_ascii soundBefore_none (by omega)
    rw [List.cons_append, decodeUnits_go_cons _ none (by omega), ascii, same]
    rfl
  next =>
    split
    next two =>
      have whole : code / 64 % 32 * 64 + code % 64 = code := by omega
      simp only [List.cons_append, List.nil_append]
      rw [decodeUnits_go_first _ (by omega) (feed_lead_two _ (by omega) (by omega)),
        decodeUnits_go_last _ (by omega), whole, same]
    next =>
      split
      next three =>
        have whole : (code / 4096 % 16 * 64 + code / 64 % 64) * 64 + code % 64 = code := by omega
        simp only [List.cons_append, List.nil_append]
        rw [decodeUnits_go_first _ (by omega) (feed_lead_three _ (by omega)),
          decodeUnits_go_more _ (by omega) (by omega) (by split <;> omega) (by split <;> omega),
          decodeUnits_go_last _ (by omega), whole, same]
      next four =>
        have whole : ((code / 262144 % 8 * 64 + code / 4096 % 64) * 64 + code / 64 % 64) * 64 +
            code % 64 = code := by omega
        simp only [List.cons_append, List.nil_append]
        rw [decodeUnits_go_first _ (by omega) (feed_lead_four _ (by omega)),
          decodeUnits_go_more _ (by omega) (by omega) (by split <;> omega) (by split <;> omega),
          decodeUnits_go_more _ (by omega) (by omega) (by omega) (by omega),
          decodeUnits_go_last _ (by omega), whole, same]

/-! ### Texts -/

theorem decodeUnits_encode (text : Text) : decodeUnits (encode text) = text.map some := by
  rw [decodeUnits]
  induction text with
  | nil => rfl
  | cons c text ih => rw [encode_cons, decodeUnits_go_utf8EncodeChar, ih, List.map_cons]

theorem decode?_encode (text : Text) : decode? (encode text) = some text := by
  rw [decode?, decodeUnits_encode, if_pos (by simp)]
  simp

end KeyHarvest
