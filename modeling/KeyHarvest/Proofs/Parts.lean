import KeyHarvest.Buffer.Access
import KeyHarvest.Proofs.Cuts
import KeyHarvest.Text.Blank

/-!
# Parts of a text

`Scattered` says that texts stand in a text one behind the other, in their order and apart. It goes
through every stage that cuts a text up: parts of two texts are parts of both in a row, and parts of
parts are parts. What is scattered in a text stands at ranges of its bytes
(`Scattered.exists_ranges`).
-/
namespace KeyHarvest
open CodeUnit

/-- The texts stand in a text in this order, with gaps between them. -/
inductive Scattered : List Text → Text → Prop
  | nil (rest : Text) : Scattered [] rest
  | cons (gap first : Text) {others : List Text} {rest : Text} :
    Scattered others rest → Scattered (first :: others) (gap ++ (first ++ rest))

namespace Scattered

variable {parts others : List Text} {text rest : Text}

theorem behind (scattered : Scattered parts text) (before : Text) :
    Scattered parts (before ++ text) := by
  cases scattered with
  | nil => exact .nil _
  | cons gap first later =>
    rw [← List.append_assoc]
    exact .cons (before ++ gap) first later

theorem append (left : Scattered parts text) (right : Scattered others rest) :
    Scattered (parts ++ others) (text ++ rest) := by
  induction left with
  | nil text => exact right.behind text
  | cons gap first later ih =>
    rw [List.append_assoc, List.append_assoc]
    exact .cons gap first ih

theorem mono (scattered : Scattered parts text) (stands : text <:+: rest) :
    Scattered parts rest := by
  obtain ⟨before, after, rfl⟩ := stands
  have whole := (scattered.behind before).append (.nil after)
  rwa [List.append_nil] at whole

theorem singleton (text : Text) : Scattered [text] text := by
  have whole := Scattered.cons [] text (.nil [])
  rwa [List.append_nil] at whole

/-- Parts of the parts, at most one of each, are parts. -/
theorem filterMap (scattered : Scattered parts text) {cut : Text → Option Text}
    (stands : ∀ part, ∀ inner ∈ cut part, inner <:+: part) :
    Scattered (parts.filterMap cut) text := by
  induction scattered with
  | nil rest => exact .nil rest
  | cons gap first later ih =>
    cases equal : cut first with
    | none =>
      -- A part that is dropped belongs to the gap in front of the next one.
      rw [List.filterMap_cons_none equal, ← List.append_assoc]
      exact ih.behind (gap ++ first)
    | some inner =>
      have inside := (singleton inner).mono (stands first inner equal)
      rw [List.filterMap_cons_some equal, ← List.append_assoc]
      exact (inside.behind gap).append ih

/-- The pieces of a text stand in it, the separators being the gaps. -/
theorem pieces_go (separator : Char → Bool) (seen text : Text) :
    Scattered (pieces.go separator seen text) (seen.reverse ++ text) := by
  induction text generalizing seen with
  | nil =>
    rw [List.append_nil]
    exact singleton seen.reverse
  | cons c rest ih =>
    rw [pieces.go]
    split
    · exact .cons [] seen.reverse ((ih []).behind [c])
    · have later := ih (c :: seen)
      rwa [List.reverse_cons, List.append_assoc] at later

theorem pieces (separator : Char → Bool) (text : Text) :
    Scattered (KeyHarvest.pieces separator text) text :=
  pieces_go separator [] text

end Scattered

/-- No piece holds a separator. -/
theorem not_separator_of_mem_pieces_go {separator : Char → Bool} {seen text piece : Text}
    (unseen : ∀ c ∈ seen, separator c = false) (member : piece ∈ pieces.go separator seen text) :
    ∀ c ∈ piece, separator c = false := by
  induction text generalizing seen with
  | nil =>
    rw [pieces.go, List.mem_singleton] at member
    subst member
    exact fun c inside => unseen c (List.mem_reverse.mp inside)
  | cons a rest ih =>
    rw [pieces.go] at member
    split at member
    · rcases List.mem_cons.mp member with rfl | member
      · exact fun c inside => unseen c (List.mem_reverse.mp inside)
      · exact ih (by simp) member
    next other =>
      apply ih _ member
      intro c inside
      rcases List.mem_cons.mp inside with rfl | inside
      · simpa using other
      · exact unseen c inside

theorem not_separator_of_mem_pieces {separator : Char → Bool} {text piece : Text}
    (member : piece ∈ pieces separator text) : ∀ c ∈ piece, separator c = false :=
  not_separator_of_mem_pieces_go (by simp) member

/-! ### Ranges of bytes -/

structure ByteRange where
  start : Nat
  stop : Nat
deriving DecidableEq, Repr

/-- The part of a buffer in a range of its bytes. -/
def Buffer.part (buffer : Buffer) (range : ByteRange) : Checked Text :=
  buffer.slice range.start range.stop

/-- Texts that are scattered behind a place are the parts of the buffer in ranges that come one
behind the other. -/
theorem Scattered.exists_ranges {parts : List Text} {buffer : Buffer} {before text : Text}
    (scattered : Scattered parts text) (filled : ∀ part ∈ parts, part ≠ [])
    (whole : buffer.text = before ++ text) :
    ∃ ranges : List ByteRange, ranges.map buffer.part = parts.map .ok ∧
      ranges.Pairwise (fun left right => left.stop ≤ right.start) ∧
      ∀ range ∈ ranges, size before ≤ range.start ∧ range.start < range.stop := by
  induction scattered generalizing before with
  | nil rest => exact ⟨[], rfl, .nil, by simp⟩
  | @cons gap first others rest later ih =>
    -- The others stand behind the gap and the first part.
    have behind : buffer.text = (before ++ gap ++ first) ++ rest := by
      rw [whole, ← List.append_assoc, ← List.append_assoc]
    obtain ⟨ranges, cut, apart, bounds⟩ :=
      ih (fun part member => filled part (List.mem_cons_of_mem first member)) behind
    have here : buffer.slice (size (before ++ gap)) (size (before ++ gap ++ first)) = .ok first :=
      Buffer.slice_eq_ok_iff.mpr ⟨before ++ gap, rest, behind, rfl, rfl⟩
    have wide : size first ≠ 0 := mt eq_nil_of_size_eq_zero (filled first List.mem_cons_self)
    simp only [size_append] at bounds here
    refine ⟨⟨size before + size gap, size before + size gap + size first⟩ :: ranges, ?_, ?_, ?_⟩
    · rw [List.map_cons, List.map_cons, cut, ← here]
      rfl
    · exact .cons (fun range member => (bounds range member).1) apart
    · intro range member
      rcases List.mem_cons.mp member with rfl | member
      · constructor
        · exact Nat.le_add_right _ _
        · exact Nat.lt_add_of_pos_right (Nat.pos_of_ne_zero wide)
      · have bound := bounds range member
        omega

/-! ### Trimming -/

theorem trim_isPrefix (text : Text) : trim text <+: text.dropWhile isBlank := by
  have back := List.dropWhile_suffix (l := (text.dropWhile isBlank).reverse) isBlank
  have front := List.reverse_prefix.mpr back
  rwa [List.reverse_reverse] at front

theorem trim_isInfix (text : Text) : trim text <:+: text :=
  (trim_isPrefix text).isInfix.trans (List.dropWhile_suffix isBlank).isInfix

theorem isBlank_head_trim (text : Text) : ∀ c ∈ (trim text).head?, isBlank c = false := by
  intro c first
  obtain ⟨after, equal⟩ := trim_isPrefix text
  apply head_dropWhile isBlank text c
  rw [← equal, List.head?_append, Option.mem_def.mp first]
  rfl

theorem isBlank_getLast_trim (text : Text) : ∀ c ∈ (trim text).getLast?, isBlank c = false := by
  intro c last
  rw [trim, List.getLast?_reverse] at last
  exact head_dropWhile isBlank _ c last

end KeyHarvest
