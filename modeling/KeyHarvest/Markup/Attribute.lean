import KeyHarvest.Text.Split

/-!
# Attributes of a tag

`attributes` reads the raw attribute text of a tag. A name is a run of units other than space,
`=`, `/`, quotes and `>`; a value follows `=`, in quotes or up to the next space. What fits neither
is passed over unit by unit, so every text is accepted. `Attribute.read` looks a name up: names
match exactly, and the first attribute of a name counts.
-/
namespace KeyHarvest
open CodeUnit

variable {α : Type} [CodeUnit α]

/-- An attribute as it is declared; `none` stands for a name without `=`. -/
structure Attribute (α : Type) where
  name : List α
  value : Option (List α)
deriving DecidableEq, Repr

def isAttributeNameUnit (a : α) : Bool :=
  !isSpace a && !is '=' a && !is '/' a && !isQuote a && !is '>' a

def skipSpace (text : List α) : List α := text.dropWhile isSpace

/-- The value after an `=`, and what follows it. A quote that never closes takes all the rest. -/
def readAttributeValue (text : List α) : List α × List α :=
  match skipSpace text with
  | [] => ([], [])
  | a :: rest =>
    if is '"' a then (rest.takeWhile (!is '"' ·), (rest.dropWhile (!is '"' ·)).drop 1)
    else if is '\'' a then (rest.takeWhile (!is '\'' ·), (rest.dropWhile (!is '\'' ·)).drop 1)
    else ((a :: rest).takeWhile (!isSpace ·), (a :: rest).dropWhile (!isSpace ·))

def readAssignment (text : List α) : Option (List α) × List α :=
  match skipSpace text with
  | [] => (none, [])
  | a :: rest =>
    if is '=' a then
      let (value, after) := readAttributeValue rest
      (some value, after)
    else (none, a :: rest)

/-- One turn of reading: `none` at the end, and else what follows the attribute that was read or,
without an attribute, the one unit that was passed over. -/
def readAttribute (text : List α) : Option (Option (Attribute α) × List α) :=
  match skipSpace text with
  | [] => none
  | a :: rest =>
    if isAttributeNameUnit a then
      let (value, after) := readAssignment ((a :: rest).dropWhile isAttributeNameUnit)
      some (some ⟨(a :: rest).takeWhile isAttributeNameUnit, value⟩, after)
    else some (none, rest)

/-! ### Every turn leaves less to read -/

theorem length_skipSpace_le (text : List α) : (skipSpace text).length ≤ text.length :=
  length_dropWhile_le isSpace text

theorem length_readAttributeValue_le (text : List α) :
    (readAttributeValue text).2.length ≤ text.length := by
  have bound := length_skipSpace_le text
  rw [readAttributeValue]
  split
  · simp
  next a rest equal =>
    rw [equal] at bound
    simp only [List.length_cons] at bound
    split
    · have := length_dropWhile_le (!is '"' ·) rest
      simp only [List.length_drop]
      omega
    · split
      · have := length_dropWhile_le (!is '\'' ·) rest
        simp only [List.length_drop]
        omega
      · have := length_dropWhile_le (!isSpace ·) (a :: rest)
        simp only [List.length_cons] at this ⊢
        omega

theorem length_readAssignment_le (text : List α) :
    (readAssignment text).2.length ≤ text.length := by
  have bound := length_skipSpace_le text
  rw [readAssignment]
  split
  · simp
  next a rest equal =>
    rw [equal] at bound
    simp only [List.length_cons] at bound
    split
    · have := length_readAttributeValue_le rest
      simp only
      omega
    · simpa using bound

theorem readAttribute_shorter {text after : List α} {declared : Option (Attribute α)}
    (read : readAttribute text = some (declared, after)) : after.length < text.length := by
  have bound := length_skipSpace_le text
  rw [readAttribute] at read
  split at read
  · simp at read
  next a rest equal =>
    rw [equal] at bound
    simp only [List.length_cons] at bound
    split at read
    next named =>
      have name := length_dropWhile_le isAttributeNameUnit rest
      have value := length_readAssignment_le ((a :: rest).dropWhile isAttributeNameUnit)
      rw [List.dropWhile_cons, if_pos named] at read value
      simp only [Option.some.injEq, Prod.mk.injEq] at read
      rw [← read.2]
      omega
    · simp only [Option.some.injEq, Prod.mk.injEq] at read
      rw [← read.2]
      omega

def attributes (text : List α) : List (Attribute α) :=
  match _read : readAttribute text with
  | none => []
  | some (none, after) => attributes after
  | some (some declared, after) => declared :: attributes after
termination_by text.length
decreasing_by all_goals exact readAttribute_shorter ‹_›

inductive Lookup (α : Type) where
  | value (text : List α)
  /-- The name stands without `=`. -/
  | noValue
  | absent
deriving DecidableEq, Repr

def lookup [DecidableEq α] (declared : List (Attribute α)) (name : List α) : Lookup α :=
  match declared.find? (·.name = name) with
  | some ⟨_, some text⟩ => .value text
  | some ⟨_, none⟩ => .noValue
  | none => .absent

end KeyHarvest
