import KeyHarvest.Text.Split

/-!
# What the cuts of a text give

Each cut of `KeyHarvest.Text.Split` is determined by what it gives: the parts make up the text, the
first part holds no place to cut at, and the second part starts with one.
-/
namespace KeyHarvest

variable {α : Type}

/-! ### Runs -/

/-- A run of units with a property ends where the property fails. -/
theorem takeWhile_run {property : α → Bool} {run rest : List α}
    (all : ∀ a ∈ run, property a = true) (stops : ∀ a ∈ rest.head?, property a = false) :
    (run ++ rest).takeWhile property = run := by
  rw [List.takeWhile_append_of_pos all]
  cases rest with
  | nil => simp
  | cons a rest => simp [stops a rfl]

theorem dropWhile_run {property : α → Bool} {run rest : List α}
    (all : ∀ a ∈ run, property a = true) (stops : ∀ a ∈ rest.head?, property a = false) :
    (run ++ rest).dropWhile property = rest := by
  rw [List.dropWhile_append_of_pos all]
  cases rest with
  | nil => rfl
  | cons a rest => simp [stops a rfl]

/-- What is left after a run starts with a unit that does not belong to the run. -/
theorem head_dropWhile (property : α → Bool) (text : List α) :
    ∀ a ∈ (text.dropWhile property).head?, property a = false := by
  intro a first
  have stops := List.head?_dropWhile_not property text
  rw [first] at stops
  simpa using stops

theorem all_takeWhile {property : α → Bool} {text : List α} :
    ∀ a ∈ text.takeWhile property, property a = true := by
  intro a member
  exact List.all_eq_true.mp List.all_takeWhile a member

/-! ### Cutting before a place -/

/-- The test fails at every place of `before`, where `rest` follows. -/
def FailsWithin (test : List α → Bool) (before rest : List α) : Prop :=
  ∀ left right, before = left ++ right → right ≠ [] → test (right ++ rest) = false

theorem failsWithin_nil (test : List α → Bool) (rest : List α) : FailsWithin test [] rest := by
  intro left right equal some
  exact absurd (List.append_eq_nil_iff.mp equal.symm).2 some

theorem failsWithin_cons {test : List α → Bool} {a : α} {before rest : List α} :
    FailsWithin test (a :: before) rest ↔
      test (a :: before ++ rest) = false ∧ FailsWithin test before rest := by
  constructor
  · intro fails
    refine ⟨fails [] (a :: before) rfl (by simp), ?_⟩
    intro left right equal some
    exact fails (a :: left) right (by rw [equal, List.cons_append]) some
  · rintro ⟨first, others⟩ left right equal some
    cases left with
    | nil =>
      rw [List.nil_append] at equal
      rw [← equal]
      exact first
    | cons b left =>
      rw [List.cons_append, List.cons.injEq] at equal
      exact others left right equal.2 some

theorem failsWithin_append {test : List α → Bool} {left right rest : List α} :
    FailsWithin test (left ++ right) rest ↔
      FailsWithin test left (right ++ rest) ∧ FailsWithin test right rest := by
  induction left with
  | nil => simp [failsWithin_nil]
  | cons a left ih =>
    rw [List.cons_append, failsWithin_cons, failsWithin_cons, ih, and_assoc]
    simp only [List.cons_append, List.append_assoc]

/-- A cut finds the first place where the test holds, or the end. -/
theorem splitBefore_eq_iff {test : List α → Bool} {text before rest : List α} :
    splitBefore test text = (before, rest) ↔
      text = before ++ rest ∧ FailsWithin test before rest ∧ (rest ≠ [] → test rest = true) := by
  induction text generalizing before with
  | nil =>
    rw [splitBefore_nil, Prod.mk.injEq]
    constructor
    · rintro ⟨rfl, rfl⟩
      exact ⟨rfl, failsWithin_nil test [], fun some => absurd rfl some⟩
    · rintro ⟨whole, -, -⟩
      obtain ⟨rfl, rfl⟩ := List.append_eq_nil_iff.mp whole.symm
      exact ⟨rfl, rfl⟩
  | cons a text ih =>
    rw [splitBefore_cons]
    by_cases holds : test (a :: text) = true
    · -- The cut is here, and nothing can stand before it.
      rw [if_pos holds, Prod.mk.injEq]
      constructor
      · rintro ⟨rfl, rfl⟩
        exact ⟨rfl, failsWithin_nil test _, fun _ => holds⟩
      · rintro ⟨whole, fails, -⟩
        cases before with
        | nil => exact ⟨rfl, whole⟩
        | cons b before =>
          have fails := (failsWithin_cons.mp fails).1
          rw [← whole, holds] at fails
          simp at fails
    · -- The first unit stands before the cut, wherever that is.
      rw [if_neg holds, Prod.mk.injEq]
      cases before with
      | nil =>
        constructor
        · rintro ⟨empty, -⟩
          simp at empty
        · rintro ⟨whole, -, found⟩
          rw [List.nil_append] at whole
          rw [← whole] at found
          exact absurd (found (by simp)) holds
      | cons b before =>
        rw [failsWithin_cons, List.cons.injEq, List.cons_append, List.cons.injEq]
        have cut : splitBefore test text = (before, rest) ↔
            (splitBefore test text).1 = before ∧ (splitBefore test text).2 = rest := Prod.ext_iff
        rw [and_assoc, ← cut, ih]
        constructor
        · rintro ⟨rfl, whole, fails, found⟩
          refine ⟨⟨rfl, whole⟩, ⟨?_, fails⟩, found⟩
          rw [← whole]
          simpa using holds
        · rintro ⟨⟨rfl, whole⟩, ⟨-, fails⟩, found⟩
          exact ⟨rfl, whole, fails, found⟩

theorem splitBefore_of_test {test : List α → Bool} {text : List α} (holds : test text = true) :
    splitBefore test text = ([], text) :=
  splitBefore_eq_iff.mpr ⟨rfl, failsWithin_nil test text, fun _ => holds⟩

/-- A text in which the test fails moves the cut, and does not change what is found. -/
theorem splitBefore_of_fails {test : List α → Bool} {before rest : List α}
    (fails : FailsWithin test before rest) :
    splitBefore test (before ++ rest) =
      (before ++ (splitBefore test rest).1, (splitBefore test rest).2) := by
  have cut : splitBefore test rest = ((splitBefore test rest).1, (splitBefore test rest).2) := rfl
  obtain ⟨whole, others, found⟩ := splitBefore_eq_iff.mp cut
  refine splitBefore_eq_iff.mpr ⟨?_, failsWithin_append.mpr ⟨?_, others⟩, found⟩
  · rw [List.append_assoc, ← whole]
  · rw [← whole]
    exact fails

/-! ### Cutting around a unit -/

theorem splitAt?_eq_some_iff {property : α → Bool} {text before after : List α} :
    splitAt? property text = some (before, after) ↔
      ∃ unit, text = before ++ unit :: after ∧ property unit = true ∧
        ∀ a ∈ before, property a = false := by
  rw [splitAt?]
  constructor
  · intro found
    split at found
    · simp at found
    next unit after' equal =>
      simp only [Option.some.injEq, Prod.mk.injEq] at found
      obtain ⟨rfl, rfl⟩ := found
      refine ⟨unit, ?_, ?_, ?_⟩
      · rw [← equal, List.takeWhile_append_dropWhile]
      · have stops := head_dropWhile (fun a => !property a) text unit
        rw [equal] at stops
        simpa using stops rfl
      · intro a member
        simpa using all_takeWhile a member
  · rintro ⟨unit, rfl, found, none⟩
    have all : ∀ a ∈ before, (!property a) = true := by simpa using none
    have stops : ∀ a ∈ (unit :: after).head?, (!property a) = false := by simpa using found
    rw [dropWhile_run all stops, takeWhile_run all stops]

theorem splitAt?_eq_none_iff {property : α → Bool} {text : List α} :
    splitAt? property text = none ↔ ∀ a ∈ text, property a = false := by
  rw [splitAt?]
  constructor
  · intro missing
    split at missing
    next empty =>
      intro a member
      have whole : text.takeWhile (fun a => !property a) = text := by
        simpa [empty] using text.takeWhile_append_dropWhile (p := fun a => !property a)
      rw [← whole] at member
      simpa using all_takeWhile a member
    · simp at missing
  · intro none
    have all : ∀ a ∈ text, (!property a) = true := by simpa using none
    have empty : (text ++ []).dropWhile (fun a => !property a) = [] := dropWhile_run all (by simp)
    rw [List.append_nil] at empty
    rw [empty]

theorem splitAt?_cons (property : α → Bool) (a : α) (rest : List α) :
    splitAt? property (a :: rest) =
      if property a then some ([], rest)
      else (splitAt? property rest).map fun (before, after) => (a :: before, after) := by
  by_cases found : property a = true
  · rw [if_pos found, splitAt?_eq_some_iff]
    exact ⟨a, rfl, found, by simp⟩
  · rw [if_neg found]
    simp only [Bool.not_eq_true] at found
    cases cut : splitAt? property rest with
    | none =>
      rw [splitAt?_eq_none_iff] at cut
      exact splitAt?_eq_none_iff.mpr (List.forall_mem_cons.mpr ⟨found, cut⟩)
    | some parts =>
      obtain ⟨unit, whole, holds, none⟩ := splitAt?_eq_some_iff.mp cut
      exact splitAt?_eq_some_iff.mpr
        ⟨unit, by rw [whole, List.cons_append], holds, List.forall_mem_cons.mpr ⟨found, none⟩⟩

/-- The place of the first unit with a property is the length of what stands before it. -/
theorem findIdx?_eq_splitAt? (property : α → Bool) (text : List α) :
    text.findIdx? property = (splitAt? property text).map fun (passed, _) => passed.length := by
  induction text with
  | nil => rfl
  | cons a text ih =>
    rw [List.findIdx?_cons, splitAt?_cons, ih]
    split
    · rfl
    · cases splitAt? property text <;> rfl

/-! ### Pieces and contiguous parts -/

theorem pieces_go_eq (separator : α → Bool) (seen text : List α) :
    pieces.go separator seen text = text.splitOnPPrepend separator seen := by
  induction text generalizing seen with
  | nil => rfl
  | cons a rest ih =>
    rw [pieces.go, List.splitOnPPrepend_cons_eq_if]
    split
    · rw [ih, List.splitOnPPrepend_nil_right]
    · exact ih (a :: seen)

theorem pieces_eq_splitOnP (separator : α → Bool) (text : List α) :
    pieces separator text = text.splitOnP separator := by
  rw [pieces, pieces_go_eq, List.splitOnPPrepend_nil_right]

/-- A separator cuts the pieces of what stands before it from those behind it. -/
theorem pieces_append_cons {separator : α → Bool} {a : α} (separates : separator a = true)
    (left right : List α) :
    pieces separator (left ++ a :: right) = pieces separator left ++ pieces separator right := by
  rw [pieces_eq_splitOnP, pieces_eq_splitOnP, pieces_eq_splitOnP]
  exact List.splitOnP_append_cons left right separates

theorem pieces_of_forall_not {separator : α → Bool} {text : List α}
    (none : ∀ a ∈ text, separator a = false) : pieces separator text = [text] := by
  rw [pieces_eq_splitOnP]
  exact List.splitOnP_eq_singleton none

theorem contains_iff [BEq α] [LawfulBEq α] {piece text : List α} :
    contains piece text = true ↔ piece <:+: text := by
  induction text with
  | nil => simp [contains]
  | cons a rest ih =>
    rw [contains, List.infix_cons_iff, ← ih, ← List.isPrefixOf_iff_prefix]
    split
    next first => simp [first]
    next other => simp [other]

end KeyHarvest
