import KeyHarvest.Buffer.Tags
import KeyHarvest.Proofs.TagEnd
import Mathlib.Data.Set.Basic
import Mathlib.Order.Bounds.Defs

/-!
# The place where a tag ends

The end of a tag is searched for in bytes, from one place on. The search is the cut of the bytes
behind that place (`findTagEnd_eq_map`), so a place that is found is the length of what was cut off.
`findTagEnd_first` says which place that is by sets of places: the first `>` behind closed quotes,
and the first of all where no `>` is behind closed quotes.
-/
namespace KeyHarvest
open CodeUnit

/-! ### The search is a cut -/

/-- What was seen before the bytes is counted on both sides. -/
theorem findUnquoted_eq_map (quote : Option Char) (base : Nat) (seen bytes : List UInt8) :
    findUnquoted quote (base + seen.length) bytes =
      (splitUnquoted quote seen bytes).map fun (passed, _) => base + passed.length := by
  induction bytes generalizing quote seen with
  | nil => rfl
  | cons byte bytes ih =>
    rw [findUnquoted, splitUnquoted]
    split
    · simp
    · exact ih (stepQuote quote byte) (byte :: seen)

theorem findTagEnd_eq_map (bytes : List UInt8) (start : Nat) :
    findTagEnd bytes start =
      (splitTagEnd (bytes.drop start)).map fun (passed, _) => start + passed.length := by
  have unquoted := findUnquoted_eq_map none start [] (bytes.drop start)
  rw [List.length_nil, Nat.add_zero] at unquoted
  rw [findTagEnd, unquoted, findByte, findIdx?_eq_splitAt?, Option.map_map, splitTagEnd]
  cases splitUnquoted none [] (bytes.drop start) with
  | none => rfl
  | some cut => rfl

/-! ### Places and what stands before them -/

/-- The places of a `>` from `start` on. -/
def endPlaces (bytes : List UInt8) (start : Nat) : Set Nat :=
  {place | start ≤ place ∧ ∃ byte, bytes[place]? = some byte ∧ is '>' byte = true}

/-- Those with no quote left open by the bytes from `start` up to them. -/
def unquotedEndPlaces (bytes : List UInt8) (start : Nat) : Set Nat :=
  {place ∈ endPlaces bytes start | Quoting (fun _ => True) (bytes.extract start place)}

variable {bytes : List UInt8} {start place : Nat}

/-- A place of a `>` cuts the bytes from `start` on in two. -/
theorem mem_sep_endPlaces_iff (passes : List UInt8 → Prop) :
    place ∈ endPlaces bytes start ∧ passes (bytes.extract start place) ↔
      ∃ passed close after, bytes.drop start = passed ++ close :: after ∧ is '>' close = true ∧
        passes passed ∧ start + passed.length = place := by
  constructor
  · rintro ⟨⟨behind, close, stands, ends⟩, holds⟩
    obtain ⟨ahead, rfl⟩ := Nat.exists_eq_add_of_le behind
    rw [← List.getElem?_drop] at stands
    obtain ⟨inside, rfl⟩ := List.getElem?_eq_some_iff.mp stands
    refine ⟨(bytes.drop start).take ahead, _, (bytes.drop start).drop (ahead + 1), ?_, ends, ?_, ?_⟩
    · rw [← List.drop_eq_getElem_cons inside, List.take_append_drop]
    · simpa using holds
    · rw [List.length_take_of_le (Nat.le_of_lt inside)]
  · rintro ⟨passed, close, after, whole, ends, holds, rfl⟩
    refine ⟨⟨Nat.le_add_right _ _, close, ?_, ends⟩, ?_⟩
    · rw [← List.getElem?_drop, whole, List.getElem?_append_right (Nat.le_refl _), Nat.sub_self]
      rfl
    · rwa [List.extract_eq_take_drop, Nat.add_sub_cancel_left, whole, List.take_left]

/-- No `>` of the text stands behind a part with the property. -/
def NoEndBehind (passes : List UInt8 → Prop) (text : List UInt8) : Prop :=
  ∀ before close after, text = before ++ close :: after → is '>' close = true → ¬ passes before

theorem noEndBehind_balanced_iff {text : List UInt8} :
    NoEndBehind Balanced text ↔ NoBareEnd none text := Iff.rfl

theorem noEndBehind_any_iff {text : List UInt8} :
    NoEndBehind (fun _ => True) text ↔ ∀ a ∈ text, is '>' a = false := by
  constructor
  · intro none a member
    obtain ⟨before, after, whole⟩ := List.append_of_mem member
    rw [← Bool.not_eq_true]
    exact fun ends => none before a after whole ends trivial
  · rintro none before close after rfl ends
    rw [none close (by simp)] at ends
    cases ends

/-- The first of the places is the one whose cut holds none of them. -/
theorem isLeast_sep_endPlaces_iff (passes : List UInt8 → Prop) :
    IsLeast {place ∈ endPlaces bytes start | passes (bytes.extract start place)} place ↔
      ∃ passed close after, bytes.drop start = passed ++ close :: after ∧ is '>' close = true ∧
        (passes passed ∧ NoEndBehind passes passed) ∧ start + passed.length = place := by
  have cuts (place : Nat) := @mem_sep_endPlaces_iff bytes start place passes
  constructor
  · rintro ⟨member, least⟩
    obtain ⟨passed, close, after, whole, ends, holds, rfl⟩ := (cuts _).mp member
    refine ⟨passed, close, after, whole, ends, ⟨holds, ?_⟩, rfl⟩
    rintro before c rest rfl ends' holds'
    have earlier := least ((cuts _).mpr
      ⟨before, c, rest ++ close :: after, by simp [whole], ends', holds', rfl⟩)
    simp only [List.length_append, List.length_cons] at earlier
    omega
  · rintro ⟨passed, close, after, whole, ends, ⟨holds, first⟩, rfl⟩
    refine ⟨(cuts _).mpr ⟨passed, close, after, whole, ends, holds, rfl⟩, ?_⟩
    intro place member
    obtain ⟨before, c, rest, whole', ends', holds', rfl⟩ := (cuts _).mp member
    -- Both places cut the same bytes, so one part in front is the start of the other.
    rw [whole] at whole'
    rcases List.append_eq_append_iff.mp whole' with ⟨more, rfl, -⟩ | ⟨more, rfl, behind⟩
    · simp
    · cases more with
      | nil => simp
      | cons d more =>
        rw [List.cons_append, List.cons.injEq] at behind
        rw [← behind.1] at first
        exact absurd holds' (first before c more rfl ends')

theorem sep_endPlaces_eq_empty_iff (passes : List UInt8 → Prop) :
    {place ∈ endPlaces bytes start | passes (bytes.extract start place)} = ∅ ↔
      NoEndBehind passes (bytes.drop start) := by
  have cuts (place : Nat) := @mem_sep_endPlaces_iff bytes start place passes
  rw [Set.eq_empty_iff_forall_notMem]
  constructor
  · intro none before close after whole ends holds
    exact none _ ((cuts _).mpr ⟨before, close, after, whole, ends, holds, rfl⟩)
  · intro none place member
    obtain ⟨before, close, after, whole, ends, holds, -⟩ := (cuts _).mp member
    exact none before close after whole ends holds

/-! ### The place that is found -/

theorem endPlaces_eq_empty_iff :
    endPlaces bytes start = ∅ ↔ ∀ a ∈ bytes.drop start, is '>' a = false := by
  rw [← noEndBehind_any_iff, ← sep_endPlaces_eq_empty_iff]
  simp only [and_true, Set.ofPred_mem_eq]

theorem isLeast_endPlaces_iff :
    IsLeast (endPlaces bytes start) place ↔
      ∃ passed close after, bytes.drop start = passed ++ close :: after ∧ is '>' close = true ∧
        (∀ a ∈ passed, is '>' a = false) ∧ start + passed.length = place := by
  have first := @isLeast_sep_endPlaces_iff bytes start place fun _ => True
  simpa only [and_true, true_and, Set.ofPred_mem_eq, noEndBehind_any_iff] using first

theorem unquotedEndPlaces_eq (bytes : List UInt8) (start : Nat) :
    unquotedEndPlaces bytes start =
      {place ∈ endPlaces bytes start | Balanced (bytes.extract start place)} := by
  simp only [unquotedEndPlaces, quoting_iff_balanced]

theorem findTagEnd_eq_none_iff : findTagEnd bytes start = none ↔ endPlaces bytes start = ∅ := by
  rw [findTagEnd_eq_map, Option.map_eq_none_iff, splitTagEnd_eq_none_iff, endPlaces_eq_empty_iff]

theorem findTagEnd_eq_some_iff :
    findTagEnd bytes start = some place ↔
      ∃ passed close after, bytes.drop start = passed ++ close :: after ∧ is '>' close = true ∧
        EndsTag passed close after ∧ start + passed.length = place := by
  rw [findTagEnd_eq_map, Option.map_eq_some_iff]
  constructor
  · rintro ⟨⟨passed, after⟩, cut, same⟩
    obtain ⟨close, whole, ends, endsTag⟩ := splitTagEnd_eq_some_iff.mp cut
    exact ⟨passed, close, after, whole, ends, endsTag, same⟩
  · rintro ⟨passed, close, after, whole, ends, endsTag, same⟩
    exact ⟨(passed, after), splitTagEnd_eq_some_iff.mpr ⟨close, whole, ends, endsTag⟩, same⟩

/-- The two ways in which a `>` ends a tag are the two sets of places. -/
theorem findTagEnd_eq_some_iff_isLeast :
    findTagEnd bytes start = some place ↔
      IsLeast (unquotedEndPlaces bytes start) place ∨
        unquotedEndPlaces bytes start = ∅ ∧ IsLeast (endPlaces bytes start) place := by
  rw [findTagEnd_eq_some_iff, unquotedEndPlaces_eq, isLeast_sep_endPlaces_iff,
    sep_endPlaces_eq_empty_iff, isLeast_endPlaces_iff]
  simp only [noEndBehind_balanced_iff]
  constructor
  · rintro ⟨passed, close, after, whole, ends, closed | ⟨first, none⟩, same⟩
    · exact .inl ⟨passed, close, after, whole, ends, closed, same⟩
    · exact .inr ⟨whole ▸ none, passed, close, after, whole, ends, first, same⟩
  · rintro (⟨passed, close, after, whole, ends, closed, same⟩ |
      ⟨none, passed, close, after, whole, ends, first, same⟩)
    · exact ⟨passed, close, after, whole, ends, .inl closed, same⟩
    · exact ⟨passed, close, after, whole, ends, .inr ⟨first, whole ▸ none⟩, same⟩

/-- Behind closed quotes a `>` is found whatever follows it. -/
theorem findTagEnd_append (found : place ∈ endPlaces bytes start)
    (quoting : Quoting (fun byte => is '>' byte = false) (bytes.extract start place))
    (other : List UInt8) : findTagEnd (bytes.take (place + 1) ++ other) start = some place := by
  obtain ⟨passed, close, after, whole, ends, closed, rfl⟩ :=
    (mem_sep_endPlaces_iff (Quoting fun byte => is '>' byte = false)).mp ⟨found, quoting⟩
  refine findTagEnd_eq_some_iff.mpr ⟨passed, close, other, ?_, ends, .inl ?_, rfl⟩
  · -- Up to the place the bytes are the same, and so is what they are cut into.
    have inside := congrArg List.length whole
    simp only [List.length_drop, List.length_append, List.length_cons] at inside
    have reaches : start ≤ (bytes.take (start + passed.length + 1)).length := by
      rw [List.length_take]
      omega
    rw [List.drop_append_of_le_length reaches, List.drop_take, whole, Nat.add_assoc,
      Nat.add_sub_cancel_left, List.take_length_add_append, List.append_assoc]
    rfl
  · exact ⟨closed.balanced, closed.noBareEnd⟩

/-- The search for the end of a tag, in any bytes and from any place on, finds nothing exactly if
there is no `>`. Otherwise it finds the first `>` with no quote left open before it, or the first of
all if there is a quote open at each. So if only quoted parts and bytes other than `>` stand before
a `>`, that place is found, whatever stands behind it. -/
theorem findTagEnd_first (bytes : List UInt8) (start : Nat) :
    (findTagEnd bytes start = none ↔ endPlaces bytes start = ∅) ∧
      (∀ place, findTagEnd bytes start = some place ↔
        IsLeast (unquotedEndPlaces bytes start) place ∨
          unquotedEndPlaces bytes start = ∅ ∧ IsLeast (endPlaces bytes start) place) ∧
      ∀ place ∈ endPlaces bytes start,
        Quoting (fun byte => is '>' byte = false) (bytes.extract start place) →
          ∀ other, findTagEnd (bytes.take (place + 1) ++ other) start = some place := by
  refine ⟨findTagEnd_eq_none_iff, fun place => findTagEnd_eq_some_iff_isLeast, ?_⟩
  intro place found quoting other
  exact findTagEnd_append found quoting other

/-- A byte that begins no character, two values that quote a `>` and the other quote, and an
apostrophe. -/
def nestedQuotes : List UInt8 := 255 :: encode "a='\">' b=\"it's>\"> c='>".toList

theorem findTagEnd_nestedQuotes :
    17 ∈ endPlaces nestedQuotes 1 ∧
      Quoting (fun byte => is '>' byte = false) (nestedQuotes.extract 1 17) ∧
      findTagEnd (nestedQuotes.take 18 ++ [34, 62]) 1 = some 17 ∧
      (unquotedEndPlaces nestedQuotes 16 = ∅ ∧ IsLeast (endPlaces nestedQuotes 16) 17) ∧
      endPlaces nestedQuotes 99 = ∅ := by
  have found : 17 ∈ endPlaces nestedQuotes 1 := ⟨by decide, 62, by decide +kernel, by decide⟩
  have quoting : Quoting (fun byte => is '>' byte = false) (nestedQuotes.extract 1 17) :=
    quoting_iff_noBareEnd.mpr (by decide +kernel)
  refine ⟨found, quoting, (findTagEnd_first nestedQuotes 1).2.2 17 found quoting [34, 62], ?_,
    (findTagEnd_first nestedQuotes 99).1.mp (by decide +kernel)⟩
  -- From the last quote of the second value on, that quote is open at every `>`.
  apply (((findTagEnd_first nestedQuotes 16).2.1 17).mp (by decide +kernel)).resolve_left
  rintro ⟨⟨-, closed⟩, -⟩
  exact absurd (quoting_iff_balanced.mp closed) (by decide +kernel)

end KeyHarvest
