import KeyHarvest.Json.Reader
import KeyHarvest.Json.Writer
import KeyHarvest.Text.Attempt

/-!
# Values that are read a second time

What was read as a value of any type is read by the reader of its own type, too: a string as a text
(`retakes_text`) and a list of strings as a list of texts (`retakes_texts`). An object whose members
were kept one by one is read by every other reader of members that takes each of them in turn
(`readMembers_of_keepMember`). Before that, what it means for a reading to succeed that is made of
others.
-/
namespace KeyHarvest.Json

variable {α β σ : Type}

/-! ### Readings that are made of others -/

/-- A whole text is read up to its end, but for gaps. -/
theorem readWhole_eq_ok_iff {reader : Reader α} {text : Text} {value : α} :
    readWhole reader text = .ok value ↔
      ∃ rest, reader text = .ok (value, rest) ∧ skipGaps rest = [] := by
  constructor
  · intro whole
    obtain ⟨⟨read, rest⟩, taken, whole⟩ := Except.bind_eq_ok_iff.mp whole
    cases ended : skipGaps rest with
    | nil =>
      simp only [ended] at whole
      cases whole
      exact ⟨rest, taken, ended⟩
    | cons c more =>
      simp only [ended] at whole
      cases whole
  · rintro ⟨rest, taken, ended⟩
    change (reader text >>= _) = _
    rw [taken, Except.ok_bind]
    simp only [ended]
    rfl

/-- A field that was not read before has the value behind its colon. -/
theorem readField_first {reader : Reader α} {name text inner rest : Text} {value : α}
    (colon : readColon text = .ok inner) (taken : reader inner = .ok (value, rest)) :
    readField name none reader text = .ok (some value, rest) := by
  change (readColon text >>= fun inner => reader inner >>= _) = _
  rw [colon, Except.ok_bind, taken]
  rfl

/-- What is read behind the name of a member is its value. -/
theorem keepMember_eq_ok_iff {value : Reader Value} {name text rest : Text}
    {before after : List (Text × Value)} :
    keepMember value name before text = .ok (after, rest) ↔
      ∃ inner read, readColon text = .ok inner ∧ value inner = .ok (read, rest) ∧
        after = (name, read) :: before := by
  constructor
  · intro kept
    obtain ⟨inner, colon, kept⟩ := Except.bind_eq_ok_iff.mp kept
    obtain ⟨⟨read, after'⟩, found, kept⟩ := Except.bind_eq_ok_iff.mp kept
    cases kept
    exact ⟨inner, read, colon, found, rfl⟩
  · rintro ⟨inner, read, colon, found, rfl⟩
    rw [keepMember, colon, Except.ok_bind, found]
    rfl

/-! ### Values -/

/-- What stands in a text where a value of a type with a bracket or quotes was read. -/
theorem readValue_inversion {depth : Nat} {text rest : Text} {value : Value}
    (read : readValue (depth + 1) text = .ok (value, rest)) :
    match value with
    | .string content =>
      ∃ inner, skipGaps text = '"' :: inner ∧ readString inner = .ok (content, rest)
    | .array items =>
      ∃ inner, skipGaps text = '[' :: inner ∧
        readItems (readValue depth) inner = .ok (items, rest)
    | .object members =>
      ∃ inner, skipGaps text = '\x7b' :: inner ∧
        readMembers (keepMember (readValue depth)) [] inner = .ok (members.reverse, rest)
    | _ => True := by
  rw [readValue] at read
  split at read
  · cases read
  -- A word or a number has no parts.
  iterate 4
    obtain ⟨after, -, read⟩ := Except.bind_eq_ok_iff.mp read
    cases read
    trivial
  next inner starts =>
    obtain ⟨⟨content, after⟩, taken, read⟩ := Except.bind_eq_ok_iff.mp read
    cases read
    exact ⟨inner, starts, taken⟩
  next inner starts =>
    split at read
    · cases read
    · obtain ⟨⟨items, after⟩, taken, read⟩ := Except.bind_eq_ok_iff.mp read
      cases read
      exact ⟨inner, starts, taken⟩
  next inner starts =>
    split at read
    · cases read
    · obtain ⟨⟨members, after⟩, taken, read⟩ := Except.bind_eq_ok_iff.mp read
      cases read
      exact ⟨inner, starts, by rw [List.reverse_reverse]; exact taken⟩
  · split at read
    · obtain ⟨⟨number, after⟩, -, read⟩ := Except.bind_eq_ok_iff.mp read
      cases read
      trivial
    · cases read

/-- The second reader takes what the first one takes, as what it is meant to be. -/
def Retakes (item : Reader α) (meant : β → α) (item' : Reader β) : Prop :=
  ∀ text value rest, item text = .ok (meant value, rest) → item' text = .ok (value, rest)

theorem retakes_text (depth : Nat) : Retakes (readValue depth) .string readText := by
  intro text content rest read
  cases depth with
  | zero => cases read
  | succ depth =>
    obtain ⟨inner, starts, taken⟩ := readValue_inversion read
    rw [readText, starts]
    exact taken

/-! ### Lists -/

section Lists

variable {item : Reader α} {item' : Reader β} {meant : β → α}

/-- A list has an end, or one more item, where it has one for the other reader. -/
theorem nextItem?_retaken (retakes : Retakes item meant item') {first : Bool} {text rest : Text}
    {value : Option β} (next : nextItem? item first text = .ok (value.map meant, rest)) :
    nextItem? item' first text = .ok (value, rest) := by
  have taken {text : Text} (next : (item text).map (fun read => (some read.1, read.2)) =
      .ok (value.map meant, rest)) :
      (item' text).map (fun read => (some read.1, read.2)) = .ok (value, rest) := by
    obtain ⟨⟨read, after⟩, found, same⟩ := Except.map_eq_ok_iff.mp next
    obtain ⟨some, rfl⟩ := Prod.mk.inj same
    obtain ⟨content, rfl, rfl⟩ := Option.map_eq_some_iff.mp some.symm
    rw [retakes _ _ _ found]
    rfl
  rw [nextItem?] at next ⊢
  split at next
  · cases next
  · obtain ⟨none, rfl⟩ := Prod.mk.inj (Except.ok.inj next)
    rw [Option.map_eq_none_iff.mp none.symm]
  next c inner noEnd starts =>
    simp only
    split at next
    next isFirst =>
      rw [if_pos isFirst]
      exact taken next
    next notFirst =>
      rw [if_neg notFirst]
      split at next
      next comma =>
        rw [if_pos comma]
        split at next
        · cases next
        · cases next
        next noText noListEnd => exact taken next
      · cases next

/-- By induction on the number of items that may follow. -/
theorem readItemsFrom_retaken (retakes : Retakes item meant item') {fuel : Nat} {first : Bool}
    {text rest : Text} {values : List β}
    (read : readItemsFrom item fuel first text = .ok (values.map meant, rest)) :
    readItemsFrom item' fuel first text = .ok (values, rest) := by
  induction fuel generalizing first text values with
  | zero => cases read
  | succ fuel ih =>
    rw [readItemsFrom] at read ⊢
    split at read
    · cases read
    next after found =>
      obtain ⟨noValues, rfl⟩ := Prod.mk.inj (Except.ok.inj read)
      have ended : nextItem? item' first text = .ok (none, after) :=
        nextItem?_retaken retakes found
      rw [ended, List.map_eq_nil_iff.mp noValues.symm]
    next item after found =>
      obtain ⟨⟨others, after'⟩, more, same⟩ := Except.map_eq_ok_iff.mp read
      obtain ⟨cons, rfl⟩ := Prod.mk.inj same
      obtain ⟨value, values, rfl, rfl, rfl⟩ := List.map_eq_cons_iff.mp cons.symm
      have again : nextItem? item' first text = .ok (some value, after) :=
        nextItem?_retaken retakes found
      rw [again]
      simp only [ih more, Except.map]

end Lists

theorem retakes_texts (depth : Nat) : Retakes (readValue depth) .strings readTexts := by
  intro text texts rest read
  cases depth with
  | zero => cases read
  | succ depth =>
    obtain ⟨inner, starts, taken⟩ := readValue_inversion read
    rw [readTexts, readList, starts]
    exact readItemsFrom_retaken (retakes_text depth) taken

/-! ### Objects -/

section Members

variable {value : Reader Value} {member : MemberReader σ}
  {Awaits : σ → List (Text × Value) → Prop}

/-- A reader of members takes each member that it awaits, and then awaits the members after it. -/
def TakesEach (value : Reader Value) (member : MemberReader σ)
    (Awaits : σ → List (Text × Value) → Prop) : Prop :=
  ∀ state name read members text inner rest, Awaits state ((name, read) :: members) →
    readColon text = .ok inner → value inner = .ok (read, rest) →
    ∃ state', member name state text = .ok (state', rest) ∧ Awaits state' members

/-- By induction on the number of members that may follow: in every state that awaits the members
that were kept from here on, these are taken up to the same place. -/
theorem readMembersFrom_of_keepMember (takes : TakesEach value member Awaits) {fuel : Nat}
    {first : Bool} {before after : List (Text × Value)} {text rest : Text}
    (kept : readMembersFrom (keepMember value) fuel first before text = .ok (after, rest)) :
    ∃ members, after = members.reverse ++ before ∧
      ∀ state, Awaits state members →
        ∃ state', readMembersFrom member fuel first state text = .ok (state', rest) ∧
          Awaits state' [] := by
  induction fuel generalizing first before text with
  | zero => cases kept
  | succ fuel ih =>
    rw [readMembersFrom] at kept
    split at kept
    · cases kept
    next behind ended =>
      obtain ⟨rfl, rfl⟩ := Prod.mk.inj (Except.ok.inj kept)
      refine ⟨[], rfl, fun state awaits => ⟨state, ?_, awaits⟩⟩
      rw [readMembersFrom, ended]
    next name behind named =>
      split at kept
      · cases kept
      next between behind' taken =>
        obtain ⟨inner, read, colon, found, rfl⟩ := keepMember_eq_ok_iff.mp taken
        obtain ⟨members, rfl, goesOn⟩ := ih kept
        refine ⟨(name, read) :: members, by simp, fun state awaits => ?_⟩
        obtain ⟨state₁, takenToo, awaits₁⟩ :=
          takes state name read members behind inner behind' awaits colon found
        obtain ⟨state₂, others, awaits₂⟩ := goesOn state₁ awaits₁
        refine ⟨state₂, ?_, awaits₂⟩
        rw [readMembersFrom, named]
        simp only [takenToo, others]

/-- A reader that awaits the members of an object from the start takes all of them. -/
theorem readMembers_of_keepMember (takes : TakesEach value member Awaits) {start : σ}
    {members : List (Text × Value)} {text rest : Text}
    (kept : readMembers (keepMember value) [] text = .ok (members.reverse, rest))
    (awaits : Awaits start members) :
    ∃ state, readMembers member start text = .ok (state, rest) ∧ Awaits state [] := by
  obtain ⟨members', same, taken⟩ := readMembersFrom_of_keepMember takes kept
  rw [List.append_nil, List.reverse_inj] at same
  exact taken start (same ▸ awaits)

end Members

end KeyHarvest.Json
