/-!
# Readings that can fail

A reading of a text, or an access to it, can fail and then ends all that follows it. So a sequence
of them goes through exactly if each one does.
-/

variable {ε α β : Type}

theorem Except.bind_eq_ok_iff {first : Except ε α} {next : α → Except ε β} {result : β} :
    first >>= next = .ok result ↔ ∃ value, first = .ok value ∧ next value = .ok result := by
  cases first with
  | error problem => simp [bind, Except.bind]
  | ok value => simp [bind, Except.bind]

theorem Except.ok_bind (value : α) (next : α → Except ε β) :
    (.ok value : Except ε α) >>= next = next value := rfl

theorem Except.map_eq_ok_iff {first : Except ε α} {meant : α → β} {result : β} :
    first.map meant = .ok result ↔ ∃ value, first = .ok value ∧ meant value = result := by
  cases first with
  | error problem => simp [Except.map]
  | ok value => simp [Except.map]
