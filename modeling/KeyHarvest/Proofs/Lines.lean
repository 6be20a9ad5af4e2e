import KeyHarvest.Proofs.Encoding
import KeyHarvest.Text.Lines

/-!
# Lines of offsets

The line that the index gives for an offset is the line that counting gives. The search finds the
offset among the starts of the lines (`getElem?_of_binarySearch`), or ends where those before it are
separated from those behind it (`separates_of_binarySearch`); either way the line is the number of
starts up to the offset (`countP_start`, `Separates.countP`). The rest is that the starts of the
lines ascend, and that there is one up to an offset for each line feed before it.
Counting in turn finds the line feeds among the bytes (`countLines_eq_lineOf`), and so the lines of
two texts in a row are known from each of them.
-/
namespace KeyHarvest
open CodeUnit

/-! ### The search in ascending entries -/

section Search

variable {starts entries : Array Nat} {value offset place low high : Nat}

/-- Where the entries below a value end and those beyond it begin. -/
structure Separates (entries : Array Nat) (value place : Nat) : Prop where
  bound : place ≤ entries.size
  below : ∀ i < place, entries.getD i 0 < value
  above : ∀ i, place ≤ i → i < entries.size → value < entries.getD i 0

theorem getD_lt_getD (ascending : entries.toList.Pairwise (· < ·)) {i j : Nat} (less : i < j)
    (bound : j < entries.size) : entries.getD i 0 < entries.getD j 0 := by
  have some : i < entries.size := Nat.lt_trans less bound
  have pair := List.pairwise_iff_getElem.mp ascending i j (by simpa) (by simpa) less
  simpa [Array.getD, some, bound] using pair

/-- What the search finds is there, in whatever order the entries are. -/
theorem getElem?_of_binarySearch (bound : high ≤ entries.size)
    (found : binarySearch entries value low high = .ok place) : entries[place]? = some value := by
  fun_induction binarySearch entries value low high with
  | case1 low high more middle before ih => exact ih bound found
  | case2 low high more middle here =>
    have inside : middle < entries.size := by omega
    have same := Nat.compare_eq_eq.mp here
    rw [← same, ← Except.ok.inj found]
    simp [Array.getD, inside]
  | case3 low high more middle beyond ih => exact ih (by omega) found
  | case4 => cases found

/-- Where the search finds nothing, it ends between the entries below and those beyond. -/
theorem separates_of_binarySearch (ascending : entries.toList.Pairwise (· < ·))
    (window : low ≤ high) (bound : high ≤ entries.size)
    (below : ∀ i < low, entries.getD i 0 < value)
    (above : ∀ i, high ≤ i → i < entries.size → value < entries.getD i 0)
    (missed : binarySearch entries value low high = .error place) :
    Separates entries value place := by
  fun_induction binarySearch entries value low high with
  | case1 low high more middle before ih =>
    have inside : middle < high := by omega
    have less := Nat.compare_eq_lt.mp before
    -- The middle entry is below the value, and so are all those before it.
    refine ih (by omega) bound ?_ above missed
    intro i earlier
    rcases Nat.lt_or_eq_of_le (Nat.le_of_lt_succ earlier) with earlier | rfl
    · exact Nat.lt_trans (getD_lt_getD ascending earlier (by omega)) less
    · exact less
  | case2 => cases missed
  | case3 low high more middle beyond ih =>
    have inside : middle < high := by omega
    have more := Nat.compare_eq_gt.mp beyond
    -- The middle entry is beyond the value, and so are all those behind it.
    refine ih (by omega) (by omega) below ?_ missed
    intro i later some
    rcases Nat.lt_or_eq_of_le later with later | rfl
    · exact Nat.lt_trans more (getD_lt_getD ascending later some)
    · exact more
  | case4 low high empty =>
    obtain rfl : low = high := by omega
    cases missed
    exact ⟨bound, below, above⟩

/-- A place of the entries cuts them into those that count and those that do not. -/
theorem countP_of_cut {counts : Nat → Bool} (bound : place ≤ entries.size)
    (below : ∀ i < place, counts (entries.getD i 0) = true)
    (above : ∀ i, place ≤ i → i < entries.size → counts (entries.getD i 0) = false) :
    entries.toList.countP counts = place := by
  have before : (entries.toList.take place).countP counts = place := by
    have length : (entries.toList.take place).length = place := by
      rw [List.length_take, Array.length_toList]
      omega
    rw [List.countP_eq_length.mpr, length]
    intro entry member
    obtain ⟨i, less, rfl⟩ := List.mem_take_iff_getElem.mp member
    have some : i < entries.size := by rw [Array.length_toList] at less; omega
    simpa [Array.getD, some] using below i (by omega)
  have behind : (entries.toList.drop place).countP counts = 0 := by
    rw [List.countP_eq_zero]
    intro entry member
    obtain ⟨i, less, rfl⟩ := List.mem_drop_iff_getElem.mp member
    have some : place + i < entries.size := by rw [Array.length_toList] at less; omega
    simpa [Array.getD, some] using above (place + i) (by omega) some
  rw [← List.take_append_drop place entries.toList, List.countP_append, before, behind]
  rfl

/-- At the start of a line, the starts up to there are those of the lines before and its own. -/
theorem countP_start (ascending : starts.toList.Pairwise (· < ·))
    (found : starts[place]? = some offset) :
    starts.toList.countP (· ≤ offset) = place + 1 := by
  obtain ⟨bound, rfl⟩ := Array.getElem?_eq_some_iff.mp found
  have here : starts.getD place 0 = starts[place] := by simp [Array.getD, bound]
  refine countP_of_cut bound (fun i less => ?_) fun i more inside => ?_
  · rcases Nat.lt_or_eq_of_le (Nat.le_of_lt_succ less) with before | rfl
    · have ordered := getD_lt_getD ascending before bound
      simp only [decide_eq_true_eq]
      omega
    · simp [here]
  · have ordered := getD_lt_getD ascending more inside
    simp only [decide_eq_false_iff_not]
    omega

/-- Between two starts, the starts up to there are those of the lines before. -/
theorem Separates.countP (separates : Separates starts offset place) :
    starts.toList.countP (· ≤ offset) = place := by
  refine countP_of_cut separates.bound (fun i less => ?_) fun i more inside => ?_
  · have before := separates.below i less
    simp only [decide_eq_true_eq]
    omega
  · have after := separates.above i more inside
    simp only [decide_eq_false_iff_not]
    omega

end Search

/-- In an ascending index the line of an offset is the number of entries up to it, whether a line
starts there or not. -/
theorem lineAt_eq_countP {starts : Array Nat} (ascending : starts.toList.Pairwise (· < ·))
    (offset : Nat) : lineAt starts offset = starts.toList.countP (· ≤ offset) := by
  rw [lineAt]
  cases searched : binarySearch starts offset 0 starts.size with
  | ok place =>
    have found := getElem?_of_binarySearch (Nat.le_refl _) searched
    exact (countP_start ascending found).symm
  | error place =>
    have separates : Separates starts offset place :=
      separates_of_binarySearch ascending (Nat.zero_le _) (Nat.le_refl _) (by simp) (by omega)
        searched
    exact separates.countP.symm

theorem lineAt_mono {starts : Array Nat} (ascending : starts.toList.Pairwise (· < ·))
    {offset later : Nat} (before : offset ≤ later) :
    lineAt starts offset ≤ lineAt starts later := by
  rw [lineAt_eq_countP ascending, lineAt_eq_countP ascending]
  refine List.countP_mono_left fun start _ counted => ?_
  rw [decide_eq_true_eq] at counted ⊢
  exact Nat.le_trans counted before

/-! ### Starts of lines -/

/-- The starts of the lines after the first one, in a text from `offset` on. -/
def startsFrom (offset : Nat) : Text → List Nat
  | [] => []
  | c :: rest =>
    let others := startsFrom (offset + width c) rest
    if is '\n' c then (offset + width c) :: others else others

theorem lineStarts_go (starts : Array Nat) (offset : Nat) (text : Text) :
    (lineStarts.go starts offset text).toList = starts.toList ++ startsFrom offset text := by
  induction text generalizing starts offset with
  | nil => simp [lineStarts.go, startsFrom]
  | cons c rest ih =>
    simp only [lineStarts.go, startsFrom]
    rw [ih]
    split <;> simp

theorem lineStarts_toList (text : Text) : (lineStarts text).toList = 0 :: startsFrom 0 text :=
  lineStarts_go #[0] 0 text

theorem lt_of_mem_startsFrom {offset start : Nat} {text : Text}
    (member : start ∈ startsFrom offset text) : offset < start := by
  induction text generalizing offset with
  | nil => cases member
  | cons c rest ih =>
    have wide := width_pos c
    simp only [startsFrom] at member
    split at member
    · rcases List.mem_cons.mp member with rfl | member
      · omega
      · have later := ih member
        omega
    · have later := ih member
      omega

theorem startsFrom_ascending (offset : Nat) (text : Text) :
    (startsFrom offset text).Pairwise (· < ·) := by
  induction text generalizing offset with
  | nil => exact List.Pairwise.nil
  | cons c rest ih =>
    simp only [startsFrom]
    split
    · exact List.pairwise_cons.mpr ⟨fun start member => lt_of_mem_startsFrom member, ih _⟩
    · exact ih _

theorem lineStarts_ascending (text : Text) : (lineStarts text).toList.Pairwise (· < ·) := by
  rw [lineStarts_toList, List.pairwise_cons]
  exact ⟨fun start member => lt_of_mem_startsFrom member, startsFrom_ascending 0 text⟩

/-! ### Counting line feeds -/

theorem countP_startsFrom_of_le {offset position : Nat} {text : Text} (passed : offset ≤ position) :
    (startsFrom position text).countP (· ≤ offset) = 0 := by
  rw [List.countP_eq_zero]
  intro start member
  have beyond := lt_of_mem_startsFrom member
  simp only [decide_eq_true_eq]
  omega

/-- The starts up to an offset are those behind the line feeds before it. -/
theorem countLines_go (offset feeds position : Nat) (text : Text) :
    countLines.go offset feeds position text =
      feeds + (startsFrom position text).countP (· ≤ offset) := by
  induction text generalizing feeds position with
  | nil => rfl
  | cons c rest ih =>
    rw [countLines.go]
    split
    next before =>
      rw [ih]
      by_cases feed : is '\n' c = true
      · -- A line feed is one byte wide: the line starts up to the offset.
        have wide : width c = 1 := by
          rw [is_iff] at feed
          subst feed
          rfl
        have counted : position + width c ≤ offset := by omega
        simp only [startsFrom, feed, if_true]
        rw [List.countP_cons_of_pos (by simpa using counted)]
        omega
      · simp [startsFrom, feed]
    next after => rw [countP_startsFrom_of_le (by omega), Nat.add_zero]

/-- The index gives every offset the line that counting gives it. -/
theorem lineAt_lineStarts (text : Text) (offset : Nat) :
    lineAt (lineStarts text) offset = countLines text offset := by
  rw [lineAt_eq_countP (lineStarts_ascending text), lineStarts_toList, countLines, countLines_go,
    List.countP_cons_of_pos (by simp)]
  omega

/-! ### Line feeds among bytes -/

/-- A part of a character holds a line feed only if it is the character. -/
theorem count_take_utf8EncodeChar (c : Char) {count : Nat} (positive : 0 < count) :
    ((String.utf8EncodeChar c).take count).count 10 = if is '\n' c then 1 else 0 := by
  split
  next feed =>
    rw [is_iff] at feed
    subst feed
    have byte : String.utf8EncodeChar '\n' = [10] := rfl
    rw [byte, List.take_of_length_le positive]
    rfl
  next other =>
    rw [List.count_eq_zero]
    intro member
    have same : is '\n' (10 : UInt8) = is '\n' c :=
      agree_is (by decide) c 10 (List.mem_of_mem_take member)
    exact other (same.symm.trans rfl)

theorem countLines_go_eq_count (offset feeds position : Nat) (text : Text) :
    countLines.go offset feeds position text =
      feeds + ((encode text).take (offset - position)).count 10 := by
  induction text generalizing feeds position with
  | nil => simp [countLines.go]
  | cons c rest ih =>
    rw [countLines.go]
    split
    next before =>
      -- What is taken is a part of the first character and, behind it, a part of the rest.
      have first := count_take_utf8EncodeChar c (Nat.sub_pos_of_lt before)
      have behind : offset - (position + width c) =
          offset - position - (String.utf8EncodeChar c).length := by
        rw [String.length_utf8EncodeChar]
        exact Nat.sub_add_eq ..
      rw [ih, behind, encode_cons, List.take_append, List.count_append, first]
      split
      · omega
      · omega
    next after =>
      rw [Nat.sub_eq_zero_of_le (Nat.le_of_not_lt after), List.take_zero]
      rfl

theorem countLines_eq_lineOf (text : Text) : countLines text = lineOf text := by
  funext offset
  rw [countLines, countLines_go_eq_count, lineOf, Nat.zero_add, Nat.sub_zero]

/-! ### Lines of two parts -/

theorem count_encode (text : Text) : (encode text).count 10 = text.count '\n' := by
  induction text with
  | nil => rfl
  | cons c text ih =>
    have first := count_take_utf8EncodeChar c (width_pos c)
    have all : (String.utf8EncodeChar c).take (width c) = String.utf8EncodeChar c :=
      List.take_of_length_le (Nat.le_of_eq (String.length_utf8EncodeChar c))
    rw [all] at first
    rw [encode_cons, List.count_append, first, ih, List.count_cons, Nat.add_comm]
    simp only [is_iff, beq_iff_eq]

theorem lineOf_append_of_le {before : Text} {offset : Nat} (inside : offset ≤ size before)
    (after : Text) : lineOf (before ++ after) offset = lineOf before offset := by
  rw [lineOf, lineOf, encode_append, List.take_append_of_le_length (by rwa [length_encode])]

theorem lineOf_append (before after : Text) (offset : Nat) :
    lineOf (before ++ after) (size before + offset) =
      before.count '\n' + lineOf after offset := by
  rw [lineOf, lineOf, encode_append, ← length_encode before, List.take_length_add_append,
    List.count_append, count_encode, Nat.add_left_comm]

/-- A text in front moves the lines of a text by its line feeds. -/
theorem countLines_append (before text : Text) (offset : Nat) :
    countLines (before ++ text) (size before + offset) =
      before.count '\n' + countLines text offset := by
  rw [countLines_eq_lineOf, countLines_eq_lineOf]
  exact lineOf_append before text offset

/-! ### Exact lines -/

/-- The line of an offset is one more than the line feeds among the bytes before it, whether the
offset is in the text, at its end or beyond it. The starts of the lines ascend from zero on, and in
any index that ascends the line of an offset is the number of entries up to it. -/
theorem lines_of_offsets :
    (∀ text : Text,
      (∀ offset, lineAt (lineStarts text) offset = 1 + ((encode text).take offset).count 10) ∧
        (lineStarts text).toList.Pairwise (· < ·) ∧ (lineStarts text)[0]? = some 0) ∧
      ∀ starts : Array Nat, starts.toList.Pairwise (· < ·) →
        (∀ offset, lineAt starts offset = starts.toList.countP (· ≤ offset)) ∧
          ∀ offset later, offset ≤ later → lineAt starts offset ≤ lineAt starts later := by
  constructor
  · intro text
    refine ⟨fun offset => ?_, lineStarts_ascending text, ?_⟩
    · rw [lineAt_lineStarts, countLines_eq_lineOf, lineOf]
    · rw [← Array.getElem?_toList, lineStarts_toList]
      rfl
  · intro starts ascending
    exact ⟨lineAt_eq_countP ascending, fun offset later => lineAt_mono ascending⟩

/-- Two line feeds in a row behind a character of two bytes: the offsets of both, those right behind
them, and one beyond the end. -/
theorem lines_of_adjacentFeeds :
    let text := "\u00e9\n\nb".toList
    let starts := #[0, 3, 4, 9]
    [2, 3, 4, 70].map (lineAt (lineStarts text)) = [1, 2, 3, 3] ∧
      starts.toList.Pairwise (· < ·) ∧ [0, 3, 5, 9].map (lineAt starts) = [1, 2, 3, 4] ∧
      5 ≤ 9 ∧ lineAt starts 5 ≤ lineAt starts 9 := by
  intro text starts
  obtain ⟨texts, indices⟩ := lines_of_offsets
  have ascending : starts.toList.Pairwise (· < ·) := by decide
  have order : 5 ≤ 9 := by decide
  obtain ⟨counted, mono⟩ := indices starts ascending
  refine ⟨?_, ascending, ?_, order, mono 5 9 order⟩
  · rw [funext (texts text).1]
    decide
  · rw [funext counted]
    decide

end KeyHarvest
