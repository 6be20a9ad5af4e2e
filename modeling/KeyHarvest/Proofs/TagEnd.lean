import KeyHarvest.Proofs.Quotes

/-!
# Where a tag ends

The text after a tag's name is cut at its first `>` at which no quote is open, and at its first `>`
of all where every `>` is quoted. `splitTagEnd_eq_some_iff` says so without the automaton that finds
the cut: by the quotes that are open after a part of the text.
-/
namespace KeyHarvest
open CodeUnit

variable {α : Type} [CodeUnit α]

theorem splitUnquoted_eq_some_iff {quote : Option Char} {seen text attributes after : List α} :
    splitUnquoted quote seen text = some (attributes, after) ↔
      ∃ body close, attributes = seen.reverse ++ body ∧ text = body ++ close :: after ∧
        is '>' close = true ∧ quoteAfter quote body = none ∧ NoBareEnd quote body := by
  induction text generalizing quote seen with
  | nil => simp [splitUnquoted]
  | cons a rest ih =>
    rw [splitUnquoted]
    split
    next ends =>
      simp only [Bool.and_eq_true, Option.isNone_iff_eq_none] at ends
      obtain ⟨rfl, ends⟩ := ends
      constructor
      · intro found
        simp only [Option.some.injEq, Prod.mk.injEq] at found
        obtain ⟨rfl, rfl⟩ := found
        exact ⟨[], a, by simp, rfl, ends, rfl, noBareEnd_nil none⟩
      · rintro ⟨body, close, rfl, whole, -, -, quoted⟩
        -- This `>` stands outside quotes, so the cut cannot lie behind it.
        cases body with
        | nil =>
          rw [List.nil_append, List.cons.injEq] at whole
          rw [whole.2, List.append_nil]
        | cons b body =>
          rw [List.cons_append, List.cons.injEq] at whole
          rw [← whole.1] at quoted
          exact absurd rfl ((noBareEnd_cons.mp quoted).1 ends)
    next goesOn =>
      -- The unit is part of the body, so a `>` here has to be quoted.
      have inside : is '>' a = true → quote ≠ none := by
        rintro ends rfl
        simp [ends] at goesOn
      rw [ih]
      constructor
      · rintro ⟨body, close, rfl, rfl, ends, balanced, quoted⟩
        exact ⟨a :: body, close, by simp, rfl, ends, balanced, noBareEnd_cons.mpr ⟨inside, quoted⟩⟩
      · rintro ⟨body, close, rfl, whole, ends, balanced, quoted⟩
        cases body with
        | nil =>
          rw [List.nil_append, List.cons.injEq] at whole
          rw [← whole.1] at ends
          exact absurd balanced (inside ends)
        | cons b body =>
          rw [List.cons_append, List.cons.injEq] at whole
          obtain ⟨rfl, rfl⟩ := whole
          exact ⟨body, close, by simp, rfl, ends, balanced, (noBareEnd_cons.mp quoted).2⟩

theorem splitUnquoted_eq_none_iff {quote : Option Char} {seen text : List α} :
    splitUnquoted quote seen text = none ↔ NoBareEnd quote text := by
  induction text generalizing quote seen with
  | nil => simp [splitUnquoted, noBareEnd_nil]
  | cons a rest ih =>
    rw [splitUnquoted, noBareEnd_cons]
    split
    next ends =>
      simp only [Bool.and_eq_true, Option.isNone_iff_eq_none] at ends
      simp [ends]
    next goesOn =>
      rw [ih]
      constructor
      · intro quoted
        refine ⟨?_, quoted⟩
        rintro ends rfl
        simp [ends] at goesOn
      · exact fun quoted => quoted.2

instance (quote : Option Char) (text : List α) : Decidable (NoBareEnd quote text) :=
  decidable_of_iff ((splitUnquoted quote [] text).isNone = true)
    (Option.isNone_iff_eq_none.trans splitUnquoted_eq_none_iff)

/-- A `>` with `attributes` before it and `after` behind it ends a tag: it is the first one outside
quotes, or the first one of all where none is outside quotes. -/
def EndsTag (attributes : List α) (close : α) (after : List α) : Prop :=
  (Balanced attributes ∧ NoBareEnd none attributes) ∨
    ((∀ a ∈ attributes, is '>' a = false) ∧ NoBareEnd none (attributes ++ close :: after))

theorem splitTagEnd_eq_some_iff {text attributes after : List α} :
    splitTagEnd text = some (attributes, after) ↔
      ∃ close, text = attributes ++ close :: after ∧ is '>' close = true ∧
        EndsTag attributes close after := by
  rw [splitTagEnd]
  cases unquoted : splitUnquoted none [] text with
  | none =>
    -- Every `>` is quoted, and the first one is taken.
    have quoted := splitUnquoted_eq_none_iff.mp unquoted
    change splitAt? (is '>') text = some (attributes, after) ↔ _
    rw [splitAt?_eq_some_iff]
    constructor
    · rintro ⟨close, whole, ends, first⟩
      exact ⟨close, whole, ends, .inr ⟨first, whole ▸ quoted⟩⟩
    · rintro ⟨close, whole, ends, ⟨balanced, -⟩ | ⟨first, -⟩⟩
      · exact absurd balanced (quoted attributes close after whole ends)
      · exact ⟨close, whole, ends, first⟩
  | some cut =>
    change some cut = some (attributes, after) ↔ _
    constructor
    · rintro ⟨⟩
      obtain ⟨body, close, same, whole, ends, balanced, quoted⟩ :=
        splitUnquoted_eq_some_iff.mp unquoted
      rw [List.reverse_nil, List.nil_append] at same
      subst same
      exact ⟨close, whole, ends, .inl ⟨balanced, quoted⟩⟩
    · rintro ⟨close, whole, ends, ⟨balanced, quoted⟩ | ⟨-, quoted⟩⟩
      · rw [← unquoted]
        exact splitUnquoted_eq_some_iff.mpr ⟨attributes, close, rfl, whole, ends, balanced, quoted⟩
      · rw [splitUnquoted_eq_none_iff.mpr (whole ▸ quoted)] at unquoted
        simp at unquoted

theorem splitTagEnd_eq_none_iff {text : List α} :
    splitTagEnd text = none ↔ ∀ a ∈ text, is '>' a = false := by
  rw [splitTagEnd]
  cases unquoted : splitUnquoted none [] text with
  | none => exact splitAt?_eq_none_iff
  | some cut =>
    obtain ⟨body, close, -, whole, ends, -, -⟩ := splitUnquoted_eq_some_iff.mp unquoted
    constructor
    · intro missing
      cases missing
    · intro none
      rw [none close (by simp [whole])] at ends
      simp at ends

end KeyHarvest
