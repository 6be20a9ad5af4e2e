import KeyHarvest.Proofs.Encoding
import Mathlib.Tactic.SplitIfs

/-!
# Texts and their bytes are ordered alike

A character with a smaller code has smaller bytes: the first byte grows with their number, and among
characters of one length the bytes are digits of the code, the highest first
(`utf8EncodeChar_append_lt`). So texts that ascend by their characters ascend by their bytes
(`encode_lt_encode`).
-/
namespace KeyHarvest

theorem ofNat_cons_lt_cons_iff {m n : Nat} (small : m < 256) (small' : n < 256)
    {left right : List UInt8} :
    UInt8.ofNat m :: left < UInt8.ofNat n :: right ↔ m < n ∨ m = n ∧ left < right := by
  rw [List.cons_lt_cons_iff, UInt8.lt_iff_toNat_lt, ← UInt8.toNat_inj,
    UInt8.toNat_ofNat_of_lt' small, UInt8.toNat_ofNat_of_lt' small']

/-- Whatever follows them, the bytes of a smaller character come first. -/
theorem utf8EncodeChar_append_lt {c d : Char} (less : c < d) (left right : List UInt8) :
    String.utf8EncodeChar c ++ left < String.utf8EncodeChar d ++ right := by
  have codes : c.val.toNat < d.val.toNat := less
  have bound : d.val.toNat < 0x110000 := d.valid.elim (Nat.lt_trans · (by decide)) And.right
  simp only [String.utf8EncodeChar]
  generalize c.val.toNat = m at codes
  generalize d.val.toNat = n at codes bound
  -- The digits to the base 64, from the last one to the first.
  have last : m / 64 < n / 64 ∨ m / 64 = n / 64 ∧ m % 64 < n % 64 := by omega
  have middle : m / 4096 < n / 4096 ∨ m / 4096 = n / 4096 ∧ m / 64 % 64 ≤ n / 64 % 64 := by omega
  have first : m / 262144 < n / 262144 ∨
      m / 262144 = n / 262144 ∧ m / 4096 % 64 ≤ n / 4096 % 64 := by omega
  have lead : m / 262144 % 8 = m / 262144 := by omega
  have lead' : n / 262144 % 8 = n / 262144 := by omega
  -- One case for each pair of lengths.
  split_ifs <;> simp (disch := omega) only [List.cons_append, List.nil_append,
    ofNat_cons_lt_cons_iff] <;> omega

theorem encode_lt_encode {text text' : Text} (less : text < text') :
    encode text < encode text' := by
  induction text generalizing text' with
  | nil =>
    cases text' with
    | nil => exact absurd less (List.not_lt_nil _)
    | cons d text' =>
      obtain ⟨byte, others, first⟩ := exists_utf8EncodeChar d
      rw [encode_cons, first]
      exact List.nil_lt_cons _ _
  | cons c text ih =>
    cases text' with
    | nil => exact absurd less (List.not_lt_nil _)
    | cons d text' =>
      rw [encode_cons, encode_cons]
      rcases List.cons_lt_cons_iff.mp less with before | ⟨rfl, later⟩
      · exact utf8EncodeChar_append_lt before _ _
      · exact List.append_left_lt (ih later)

end KeyHarvest
