import KeyHarvest.Markup.Attribute
import KeyHarvest.Proofs.Cuts

/-!
# Attribute texts unit by unit

A `Reading` is how far the reading of an attribute text has come after some of its units. It decides
what the next unit means, so it tells which units of the text stand in a quoted value.
`attributes_eq_run` says that reading unit by unit gives the attributes that `attributes` finds
run by run.
-/
namespace KeyHarvest
open CodeUnit

variable {α : Type} [CodeUnit α]

/-- What has been read, since the last attribute that is complete. -/
inductive Reading (α : Type) where
  | between
  | inName (seen : List α)
  | afterName (name : List α)
  | afterEquals (name : List α)
  | inQuotes (quote : Char) (name value : List α)
  | inBare (name value : List α)
deriving DecidableEq, Repr

namespace Reading

/-- The reading after the first unit of something new. -/
def start (a : α) : Reading α := if isAttributeNameUnit a then .inName [a] else .between

def step : Reading α → α → Reading α
  | .between, a => start a
  | .inName seen, a =>
    if isAttributeNameUnit a then .inName (seen ++ [a])
    else if isSpace a then .afterName seen
    else if is '=' a then .afterEquals seen
    else .between
  | .afterName name, a =>
    if isSpace a then .afterName name else if is '=' a then .afterEquals name else start a
  | .afterEquals name, a =>
    if isSpace a then .afterEquals name
    else if is '"' a then .inQuotes '"' name []
    else if is '\'' a then .inQuotes '\'' name []
    else .inBare name [a]
  | .inQuotes quote name value, a =>
    if is quote a then .between else .inQuotes quote name (value ++ [a])
  | .inBare name value, a => if isSpace a then .between else .inBare name (value ++ [a])

/-- The attribute that one more unit completes. -/
def completed : Reading α → α → Option (Attribute α)
  | .between, _ => none
  | .inName seen, a =>
    if isAttributeNameUnit a || isSpace a || is '=' a then none else some ⟨seen, none⟩
  | .afterName name, a => if isSpace a || is '=' a then none else some ⟨name, none⟩
  | .afterEquals _, _ => none
  | .inQuotes quote name value, a => if is quote a then some ⟨name, some value⟩ else none
  | .inBare name value, a => if isSpace a then some ⟨name, some value⟩ else none

/-- The attribute that the end of the text completes. -/
def pending : Reading α → Option (Attribute α)
  | .between => none
  | .inName seen => some ⟨seen, none⟩
  | .afterName name => some ⟨name, none⟩
  | .afterEquals name => some ⟨name, some []⟩
  | .inQuotes _ name value => some ⟨name, some value⟩
  | .inBare name value => some ⟨name, some value⟩

/-- The attributes of the rest of a text, given the reading before it. -/
def run : Reading α → List α → List (Attribute α)
  | reading, [] => reading.pending.toList
  | reading, a :: rest => (reading.completed a).toList ++ run (reading.step a) rest

/-! ### Runs of units -/

theorem not_isAttributeNameUnit_of_isSpace {a : α} (space : isSpace a = true) :
    isAttributeNameUnit a = false := by
  rw [isAttributeNameUnit, space]
  rfl

theorem run_between_cons {a : α} (other : isAttributeNameUnit a = false) (rest : List α) :
    run .between (a :: rest) = run .between rest := by
  simp [run, completed, step, start, other]

theorem skipSpace_cons (a : α) (rest : List α) :
    skipSpace (a :: rest) = if isSpace a = true then skipSpace rest else a :: rest :=
  List.dropWhile_cons

theorem run_between_skipSpace (text : List α) :
    run .between (skipSpace text) = run .between text := by
  induction text with
  | nil => rfl
  | cons a rest ih =>
    rw [skipSpace_cons]
    split
    next space => rw [ih, run_between_cons (not_isAttributeNameUnit_of_isSpace space)]
    · rfl

theorem run_afterName_skipSpace (name text : List α) :
    run (.afterName name) (skipSpace text) = run (.afterName name) text := by
  induction text with
  | nil => rfl
  | cons a rest ih =>
    rw [skipSpace_cons]
    split
    next space => simp [run, completed, step, space, ih]
    · rfl

theorem run_afterEquals_skipSpace (name text : List α) :
    run (.afterEquals name) (skipSpace text) = run (.afterEquals name) text := by
  induction text with
  | nil => rfl
  | cons a rest ih =>
    rw [skipSpace_cons]
    split
    next space => simp [run, completed, step, space, ih]
    · rfl

theorem run_quoted (quote : Char) (name value text : List α) :
    run (.inQuotes quote name value) text =
      ⟨name, some (value ++ text.takeWhile (!is quote ·))⟩ ::
        run .between ((text.dropWhile (!is quote ·)).drop 1) := by
  induction text generalizing value with
  | nil => simp [run, pending]
  | cons a rest ih =>
    by_cases closes : is quote a = true
    · simp [run, completed, step, closes]
    · simp [run, completed, step, closes, ih]

theorem run_bare (name value text : List α) :
    run (.inBare name value) text =
      ⟨name, some (value ++ text.takeWhile (!isSpace ·))⟩ ::
        run .between (text.dropWhile (!isSpace ·)) := by
  induction text generalizing value with
  | nil => simp [run, pending]
  | cons a rest ih =>
    by_cases space : isSpace a = true
    · have other := not_isAttributeNameUnit_of_isSpace space
      simp [run, completed, step, space, start, other]
    · simp [run, completed, step, space, ih]

/-! ### The readers of attributes -/

theorem head_skipSpace {text rest : List α} {a : α} (equal : skipSpace text = a :: rest) :
    isSpace a = false := by
  have stops := head_dropWhile isSpace text a
  rw [← skipSpace, equal] at stops
  exact stops rfl

theorem run_afterEquals (name text : List α) :
    run (.afterEquals name) text =
      ⟨name, some (readAttributeValue text).1⟩ :: run .between (readAttributeValue text).2 := by
  rw [← run_afterEquals_skipSpace, readAttributeValue]
  split
  next equal =>
    rw [equal]
    rfl
  next a rest equal =>
    rw [equal, run, completed, step, if_neg (by simp [head_skipSpace equal])]
    split
    · exact run_quoted '"' name [] rest
    · split
      · exact run_quoted '\'' name [] rest
      · -- The unit is the first one of a bare value.
        have first : (!isSpace a) = true := by simp [head_skipSpace equal]
        simp only [List.takeWhile_cons, List.dropWhile_cons, first, if_true]
        exact run_bare name [a] rest

theorem run_afterName (name text : List α) :
    run (.afterName name) text =
      ⟨name, (readAssignment text).1⟩ :: run .between (readAssignment text).2 := by
  rw [← run_afterName_skipSpace, readAssignment]
  split
  next equal =>
    rw [equal]
    rfl
  next a rest equal =>
    have other := head_skipSpace equal
    rw [equal]
    split
    next equals => simp [run, completed, step, other, equals, run_afterEquals]
    next equals => simp [run, completed, step, other, equals]

theorem readAssignment_skipSpace (text : List α) :
    readAssignment (skipSpace text) = readAssignment text := by
  have twice : skipSpace (skipSpace text) = skipSpace text := by
    cases equal : skipSpace text with
    | nil => rfl
    | cons a rest => rw [skipSpace_cons, if_neg (by simp [head_skipSpace equal])]
  rw [readAssignment, readAssignment, twice]

theorem run_name (seen text : List α) :
    run (.inName seen) text =
      ⟨seen ++ text.takeWhile isAttributeNameUnit,
        (readAssignment (text.dropWhile isAttributeNameUnit)).1⟩ ::
        run .between (readAssignment (text.dropWhile isAttributeNameUnit)).2 := by
  induction text generalizing seen with
  | nil => simp [run, pending, readAssignment, skipSpace]
  | cons a rest ih =>
    by_cases named : isAttributeNameUnit a = true
    · simp [run, completed, step, named, ih]
    · simp only [Bool.not_eq_true] at named
      -- The name ends here, and this unit tells whether a value can follow.
      rw [run, List.takeWhile_cons_of_neg (by simp [named]),
        List.dropWhile_cons_of_neg (by simp [named]), List.append_nil]
      by_cases space : isSpace a = true
      · have skipped : readAssignment (a :: rest) = readAssignment rest := by
          rw [← readAssignment_skipSpace, skipSpace_cons, if_pos space, readAssignment_skipSpace]
        simp [completed, step, named, space, run_afterName, skipped]
      · have kept : skipSpace (a :: rest) = a :: rest := by rw [skipSpace_cons, if_neg space]
        by_cases equals : is '=' a = true
        · simp [completed, step, named, space, equals, run_afterEquals, readAssignment, kept]
        · simp [completed, step, named, space, equals, readAssignment, kept,
            run_between_cons named]

/-- One turn of `readAttribute`, unit by unit. -/
theorem run_between (text : List α) :
    run .between text =
      match readAttribute text with
      | none => []
      | some (declared, after) => declared.toList ++ run .between after := by
  rw [← run_between_skipSpace, readAttribute]
  cases skipSpace text with
  | nil => rfl
  | cons a rest =>
    by_cases named : isAttributeNameUnit a = true
    · -- A name starts here, and is read to its end.
      simp only [named, if_true, List.takeWhile_cons, List.dropWhile_cons]
      have first : run .between (a :: rest) = run (.inName [a]) rest := by
        simp [run, completed, step, start, named]
      rw [first, run_name]
      rfl
    · simp only [Bool.not_eq_true] at named
      -- Nothing starts here: both pass over the unit.
      simp only [named, Bool.false_eq_true, if_false]
      exact run_between_cons named rest

/-- Reading unit by unit gives the attributes of a text. -/
theorem attributes_eq_run (text : List α) : attributes text = run .between text := by
  fun_induction attributes text with
  | case1 text read => rw [run_between, read]
  | case2 text after read ih => rw [run_between, read, ih]; rfl
  | case3 text declared after read ih => rw [run_between, read, ih]; rfl

/-! ### The reading after a text -/

/-- How far the reading of an attribute text has come after its units `text`. -/
def after (text : List α) : Reading α := text.foldl step .between

/-- What a run gives is what it gave before a place, and what it gives from the reading there on. -/
theorem run_append (reading : Reading α) (left right : List α) :
    ∃ earlier, run reading (left ++ right) = earlier ++ run (left.foldl step reading) right := by
  induction left generalizing reading with
  | nil => exact ⟨[], rfl⟩
  | cons a left ih =>
    obtain ⟨earlier, equal⟩ := ih (reading.step a)
    refine ⟨(reading.completed a).toList ++ earlier, ?_⟩
    rw [List.cons_append, run, equal, List.append_assoc]
    rfl

end Reading

end KeyHarvest
