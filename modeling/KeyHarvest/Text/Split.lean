import KeyHarvest.Text.CodeUnit

/-!
# Cutting a text

`splitBefore` cuts a text at the first place where a test on all that follows holds, `splitAt?`
cuts it around its first unit with a property, and `pieces` cuts it at every separator.
`contains` decides whether one text is a contiguous piece of another.
-/
namespace KeyHarvest

variable {α : Type}

/-- The text before the first place where `test` holds of the remainder, and that remainder. -/
def splitBefore (test : List α → Bool) (text : List α) : List α × List α :=
  go [] text
where
  go (seen : List α) : List α → List α × List α
    | [] => (seen.reverse, [])
    | a :: rest =>
      if test (a :: rest) then (seen.reverse, a :: rest) else go (a :: seen) rest

theorem splitBefore_go (test : List α → Bool) (seen text : List α) :
    splitBefore.go test seen text =
      (seen.reverse ++ (splitBefore test text).1, (splitBefore test text).2) := by
  induction text generalizing seen with
  | nil => simp [splitBefore, splitBefore.go]
  | cons a rest ih =>
    simp only [splitBefore, splitBefore.go]
    split
    · simp
    · rw [ih (a :: seen), ih [a]]
      simp [splitBefore]

@[simp] theorem splitBefore_nil (test : List α → Bool) : splitBefore test [] = ([], []) := rfl

theorem splitBefore_cons (test : List α → Bool) (a : α) (rest : List α) :
    splitBefore test (a :: rest) =
      if test (a :: rest) then ([], a :: rest)
      else (a :: (splitBefore test rest).1, (splitBefore test rest).2) := by
  rw [splitBefore, splitBefore.go]
  split
  · rfl
  · rw [splitBefore_go]
    simp

/-- Nothing is lost by a cut. -/
theorem splitBefore_append (test : List α → Bool) (text : List α) :
    (splitBefore test text).1 ++ (splitBefore test text).2 = text := by
  induction text with
  | nil => rfl
  | cons a rest ih =>
    rw [splitBefore_cons]
    split
    · rfl
    · simpa using ih

/-- The text before the first unit with the property, and the text after that unit. -/
def splitAt? (property : α → Bool) (text : List α) : Option (List α × List α) :=
  match text.dropWhile fun a => !property a with
  | [] => none
  | _ :: after => some (text.takeWhile fun a => !property a, after)

theorem length_dropWhile_le (property : α → Bool) (text : List α) :
    (text.dropWhile property).length ≤ text.length :=
  (text.dropWhile_suffix property).length_le

/-- At least the unit that was looked for is gone. -/
theorem splitAt?_shorter {property : α → Bool} {text before after : List α}
    (found : splitAt? property text = some (before, after)) : after.length < text.length := by
  have bound := length_dropWhile_le (fun a => !property a) text
  rw [splitAt?] at found
  split at found
  · simp at found
  next equal =>
    rw [equal] at bound
    simp only [Option.some.injEq, Prod.mk.injEq] at found
    simp only [List.length_cons, found.2] at bound
    omega

/-- The pieces of a text between its separators: one more than there are separators. -/
def pieces (separator : α → Bool) (text : List α) : List (List α) :=
  go [] text
where
  go (seen : List α) : List α → List (List α)
    | [] => [seen.reverse]
    | a :: rest => if separator a then seen.reverse :: go [] rest else go (a :: seen) rest

/-- Whether `piece` stands somewhere in the text, in one run. -/
def contains [BEq α] (piece : List α) : List α → Bool
  | [] => piece.isEmpty
  | a :: rest => if piece.isPrefixOf (a :: rest) then true else contains piece rest

end KeyHarvest
