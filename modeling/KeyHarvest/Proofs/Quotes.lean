import KeyHarvest.Markup.Document
import KeyHarvest.Proofs.Cuts

/-!
# Quotes of a text

Which quote is open after a part of a text, step by step, and the form of a text in which none is
open at the end: quoted parts, each closed by the quote that opened it, and units between them
(`quoting_iff_balanced`). A `>` outside quotes is a unit between quoted parts
(`quoting_iff_noBareEnd`).
-/
namespace KeyHarvest
open CodeUnit

variable {α : Type} [CodeUnit α] {property : α → Prop} {text : List α}

/-! ### Open quotes -/

@[simp] theorem quoteAfter_nil (quote : Option Char) : quoteAfter quote ([] : List α) = quote := rfl

@[simp] theorem quoteAfter_cons (quote : Option Char) (a : α) (rest : List α) :
    quoteAfter quote (a :: rest) = quoteAfter (stepQuote quote a) rest := rfl

theorem stepQuote_unquoted {a : α} (unquoted : isQuote a = false) : stepQuote none a = none := by
  rw [isQuote, Bool.or_eq_false_iff] at unquoted
  simp only [stepQuote, unquoted.1, unquoted.2, Bool.false_eq_true, if_false]

theorem stepQuote_opens {quote : Char} {a : α} (delimits : isQuote quote = true)
    (opens : is quote a = true) : stepQuote none a = some quote := by
  rcases isQuote_iff.mp delimits with rfl | rfl
  · simp only [stepQuote, opens, if_true]
  · have other : is '"' a = false := not_is_of_ne (by decide) opens
    simp only [stepQuote, other, opens, Bool.false_eq_true, if_false, if_true]

theorem stepQuote_closes {quote : Char} {a : α} (closes : is quote a = true) :
    stepQuote (some quote) a = none := by
  simp only [stepQuote, closes, if_true]

theorem not_end_of_opens {quote : Char} {a : α} (delimits : isQuote quote = true)
    (opens : is quote a = true) : is '>' a = false := by
  refine not_is_of_ne ?_ opens
  rintro rfl
  cases delimits

/-! ### Ends outside quotes -/

theorem noBareEnd_nil (quote : Option Char) : NoBareEnd quote ([] : List α) := by
  intro before close after whole
  simp at whole

/-- The first unit is judged by the quote before it, the others by the quote after it. -/
theorem noBareEnd_cons {quote : Option Char} {a : α} {rest : List α} :
    NoBareEnd quote (a :: rest) ↔
      (is '>' a = true → quote ≠ none) ∧ NoBareEnd (stepQuote quote a) rest := by
  constructor
  · intro quoted
    refine ⟨quoted [] a rest rfl, ?_⟩
    intro before close after whole ends
    exact quoted (a :: before) close after (by rw [whole, List.cons_append]) ends
  · rintro ⟨first, others⟩ before close after whole ends
    cases before with
    | nil =>
      rw [List.nil_append, List.cons.injEq] at whole
      rw [← whole.1] at ends
      exact first ends
    | cons b before =>
      rw [List.cons_append, List.cons.injEq] at whole
      rw [← whole.1]
      exact others before close after whole.2 ends

theorem noBareEnd_append {quote : Option Char} {left right : List α} :
    NoBareEnd quote (left ++ right) ↔
      NoBareEnd quote left ∧ NoBareEnd (quoteAfter quote left) right := by
  induction left generalizing quote with
  | nil => simp [noBareEnd_nil]
  | cons a left ih => rw [List.cons_append, noBareEnd_cons, noBareEnd_cons, ih, and_assoc]; rfl

theorem noBareEnd_of_none {quote : Option Char}
    (none : ∀ a ∈ text, is '>' a = false) : NoBareEnd quote text := by
  rintro before close after rfl ends
  rw [none close (by simp)] at ends
  simp at ends

/-- A quote stays open in a text without it. -/
theorem quoteAfter_some {quote : Char} (unclosed : ∀ a ∈ text, is quote a = false) :
    quoteAfter (some quote) text = some quote ∧ NoBareEnd (some quote) text := by
  induction text with
  | nil => exact ⟨rfl, noBareEnd_nil _⟩
  | cons a text ih =>
    obtain ⟨other, unclosed⟩ := List.forall_mem_cons.mp unclosed
    have same : stepQuote (some quote) a = some quote := by
      simp only [stepQuote, other, Bool.false_eq_true, if_false]
    obtain ⟨stays, quoted⟩ := ih unclosed
    rw [quoteAfter_cons, noBareEnd_cons, same]
    exact ⟨stays, by simp, quoted⟩

/-! ### Closed quotes -/

/-- A quoted part is passed with its quote open inside and no quote open behind it. -/
theorem quoteAfter_quoted {quote : Char} {start stop : α} {inside : List α}
    (delimits : isQuote quote = true) (opens : is quote start = true)
    (unclosed : ∀ a ∈ inside, is quote a = false) (closes : is quote stop = true)
    (rest : List α) :
    quoteAfter none (start :: (inside ++ stop :: rest)) = quoteAfter none rest := by
  rw [quoteAfter_cons, stepQuote_opens delimits opens, quoteAfter_append,
    (quoteAfter_some unclosed).1, quoteAfter_cons, stepQuote_closes closes]

theorem Quoting.balanced (quoting : Quoting property text) : Balanced text := by
  induction quoting with
  | done => rfl
  | bare unquoted holds later ih =>
    rw [Balanced, quoteAfter_cons, stepQuote_unquoted unquoted]
    exact ih
  | quoted delimits opens unclosed closes later ih =>
    rw [Balanced, quoteAfter_quoted delimits opens unclosed closes]
    exact ih

theorem Quoting.noBareEnd (quoting : Quoting (fun a : α => is '>' a = false) text) :
    NoBareEnd none text := by
  induction quoting with
  | done => exact noBareEnd_nil none
  | bare unquoted holds later ih =>
    rw [noBareEnd_cons, stepQuote_unquoted unquoted]
    exact ⟨by simp [holds], ih⟩
  | quoted delimits opens unclosed closes later ih =>
    -- Every unit of a quoted part but the first one has an open quote before it.
    obtain ⟨stays, hidden⟩ := quoteAfter_some unclosed
    rw [noBareEnd_cons, stepQuote_opens delimits opens, noBareEnd_append, stays, noBareEnd_cons,
      stepQuote_closes closes]
    exact ⟨by simp [not_end_of_opens delimits opens], hidden, by simp, ih⟩

/-- A quote that starts a balanced text is closed by the next one of its kind. -/
theorem exists_quoted {a : α} {rest : List α} (quotes : isQuote a = true)
    (balanced : Balanced (a :: rest)) :
    ∃ quote inside stop later, rest = inside ++ stop :: later ∧ isQuote quote = true ∧
      is quote a = true ∧ (∀ b ∈ inside, is quote b = false) ∧ is quote stop = true := by
  obtain ⟨quote, delimits, opens⟩ := exists_is_of_isQuote quotes
  cases cut : splitAt? (is quote) rest with
  | none =>
    -- Without a second quote the first one stays open.
    rw [Balanced, quoteAfter_cons, stepQuote_opens delimits opens,
      (quoteAfter_some (splitAt?_eq_none_iff.mp cut)).1] at balanced
    cases balanced
  | some parts =>
    obtain ⟨inside, later⟩ := parts
    obtain ⟨stop, whole, closes, unclosed⟩ := splitAt?_eq_some_iff.mp cut
    exact ⟨quote, inside, stop, later, whole, delimits, opens, unclosed, closes⟩

/-- In a balanced text the units outside quotes are those with balanced quotes before them. -/
theorem quoting_of_balanced (balanced : Balanced text)
    (holds : ∀ before a after, text = before ++ a :: after → Balanced before →
      isQuote a = false → property a) :
    Quoting property text := by
  -- The induction is on the length, since a quoted part is passed as a whole.
  induction length : text.length using Nat.strongRecOn generalizing text with
  | ind bound ih =>
    subst length
    cases text with
    | nil => exact .done
    | cons a rest =>
      cases quotes : isQuote a with
      | false =>
        have same := stepQuote_unquoted quotes
        rw [Balanced, quoteAfter_cons, same] at balanced
        refine .bare quotes (holds [] a rest rfl rfl quotes) (ih _ (by simp) balanced ?_ rfl)
        intro before b after whole closed
        refine holds (a :: before) b after (by rw [whole, List.cons_append]) ?_
        rwa [Balanced, quoteAfter_cons, same]
      | true =>
        obtain ⟨quote, inside, stop, later, rfl, delimits, opens, unclosed, closes⟩ :=
          exists_quoted quotes balanced
        have passed := quoteAfter_quoted delimits opens unclosed closes
        rw [Balanced, passed] at balanced
        refine .quoted delimits opens unclosed closes (ih _ (by simp; omega) balanced ?_ rfl)
        intro before b after whole closed
        refine holds (a :: (inside ++ stop :: before)) b after (by simp [whole]) ?_
        rwa [Balanced, passed]

theorem quoting_iff_balanced : Quoting (fun _ : α => True) text ↔ Balanced text := by
  constructor
  · exact Quoting.balanced
  · intro balanced
    exact quoting_of_balanced balanced fun _ _ _ _ _ _ => trivial

theorem quoting_iff_noBareEnd :
    Quoting (fun a : α => is '>' a = false) text ↔ Balanced text ∧ NoBareEnd none text := by
  constructor
  · exact fun quoting => ⟨quoting.balanced, quoting.noBareEnd⟩
  · rintro ⟨balanced, quoted⟩
    refine quoting_of_balanced balanced fun before a after whole closed _ => ?_
    rw [← Bool.not_eq_true]
    exact fun ends => quoted before a after whole ends closed

instance (text : List α) : Decidable (Balanced text) :=
  inferInstanceAs (Decidable (quoteAfter none text = none))

end KeyHarvest
