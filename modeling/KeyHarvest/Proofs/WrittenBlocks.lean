import KeyHarvest.Proofs.ReadMembers
import KeyHarvest.Proofs.WrittenStrings

/-!
# Written lists and objects are read back

`IsRead` says that a reader takes a text for a value, whatever gaps stand before it and whatever
follows it. A list is read from its block if its items are (`isRead_list`), with any reader of
items. An object is read if its members lead a reader of members from the start to what it makes of
the object (`readMembers_block`). Values of any type are read by the same two (`isRead_array`,
`isRead_object`).
-/
namespace KeyHarvest.Json

variable {α β γ σ : Type}

/-! ### Gaps -/

/-- Nothing but the space that may stand between the parts of a JSON text. -/
def IsGaps (text : Text) : Prop := ∀ c ∈ text, isGap c = true

theorem isGaps_newLine (level : Nat) : IsGaps (newLine level) := by
  intro c member
  rcases List.mem_cons.mp member with rfl | blank
  · rfl
  · rw [List.eq_of_mem_replicate blank]
    rfl

theorem skipGaps_append {gaps : Text} (only : IsGaps gaps) (text : Text) :
    skipGaps (gaps ++ text) = skipGaps text :=
  List.dropWhile_append_of_pos only

theorem skipGaps_cons {c : Char} (other : isGap c = false) (rest : Text) :
    skipGaps (c :: rest) = c :: rest := by
  simp [skipGaps, other]

/-! ### What a reader takes -/

/-- The reader takes the text for the value, whatever gaps stand before and whatever follows. -/
structure IsRead (reader : Reader α) (text : Text) (value : α) : Prop where
  starts : ∃ c rest, text = c :: rest ∧ isGap c = false ∧ c ≠ ']'
  read : ∀ input rest, skipGaps input = text ++ rest → reader input = .ok (value, rest)

/-- A value is neither a gap nor the end of a list. -/
theorem IsRead.skipGaps_append {reader : Reader α} {text : Text} {value : α}
    (isRead : IsRead reader text value) {gaps : Text} (only : IsGaps gaps) (rest : Text) :
    skipGaps (gaps ++ (text ++ rest)) = text ++ rest := by
  obtain ⟨c, others, rfl, noGap, -⟩ := isRead.starts
  rw [Json.skipGaps_append only, List.cons_append, skipGaps_cons noGap]

/-! ### Lists -/

section Lists

variable {item : Reader α} {text input rest : Text} {value : α}

theorem nextItem?_first (isRead : IsRead item text value) (stands : skipGaps input = text ++ rest) :
    nextItem? item true input = .ok (some value, rest) := by
  obtain ⟨c, others, rfl, noGap, notEnd⟩ := isRead.starts
  have taken := isRead.read (c :: others ++ rest) rest (skipGaps_cons noGap _)
  rw [List.cons_append] at stands taken
  rw [nextItem?, stands]
  split
  next none => cases none
  next same => exact absurd (List.cons.inj same).1 notEnd
  next same =>
    cases same
    rw [if_pos rfl, taken]
    rfl

theorem nextItem?_later (isRead : IsRead item text value)
    (stands : skipGaps input = text ++ rest) :
    nextItem? item false (',' :: input) = .ok (some value, rest) := by
  obtain ⟨c, others, rfl, noGap, notEnd⟩ := isRead.starts
  have taken := isRead.read (c :: others ++ rest) rest (skipGaps_cons noGap _)
  rw [List.cons_append] at stands taken
  rw [nextItem?, skipGaps_cons rfl]
  split
  next none => cases none
  next same => exact absurd (List.cons.inj same).1 (by decide)
  next same =>
    cases same
    rw [if_neg Bool.false_ne_true, if_pos rfl, stands]
    split
    next none => cases none
    next same => exact absurd (List.cons.inj same).1 notEnd
    next =>
      rw [taken]
      rfl

theorem nextItem?_end (first : Bool) (stands : skipGaps input = ']' :: rest) :
    nextItem? item first input = .ok (none, ']' :: rest) := by
  rw [nextItem?, stands]
  rfl

end Lists

/-! ### Blocks -/

/-- The parts behind the first one between two brackets, each with a comma and a gap in front. -/
def furtherParts (gaps : Text) (parts : List Text) : Text :=
  parts.flatMap fun part => ',' :: (gaps ++ part)

theorem furtherParts_cons (gaps part : Text) (parts : List Text) :
    furtherParts gaps (part :: parts) = ',' :: (gaps ++ (part ++ furtherParts gaps parts)) := by
  simp [furtherParts]

theorem separated_cons (gaps first : Text) (others : List Text) :
    separated (',' :: gaps) (first :: others) = first ++ furtherParts gaps others := by
  induction others generalizing first with
  | nil => simp [separated, furtherParts]
  | cons next others ih =>
    rw [separated, ih, furtherParts_cons]
    · simp
    · simp

theorem block_cons (opening closing : Char) (level : Nat) (first : Text) (others : List Text)
    (rest : Text) :
    block opening closing level (first :: others) ++ rest =
      opening :: (newLine (level + 1) ++ (first ++
        (furtherParts (newLine (level + 1)) others ++ (newLine level ++ closing :: rest)))) := by
  simp [block, separated_cons]

theorem length_le_furtherParts (gaps : Text) (parts : List Text) :
    parts.length ≤ (furtherParts gaps parts).length := by
  induction parts with
  | nil => exact Nat.le_refl 0
  | cons part parts ih =>
    simp only [furtherParts_cons, List.length_cons, List.length_append]
    omega

section Lists

variable {item : Reader α} {written : β → Text} {meant : β → α}

/-- The induction is on the items behind the first one, each with its comma in front. -/
theorem readItemsFrom_later {gaps gaps' : Text} (only : IsGaps gaps) (only' : IsGaps gaps')
    {items : List β} (areRead : ∀ x ∈ items, IsRead item (written x) (meant x)) (rest : Text)
    {fuel : Nat} (enough : items.length < fuel) :
    readItemsFrom item fuel false
        (furtherParts gaps (items.map written) ++ (gaps' ++ ']' :: rest)) =
      .ok (items.map meant, rest) := by
  induction items generalizing fuel with
  | nil =>
    obtain ⟨more, rfl⟩ := Nat.exists_eq_add_of_lt enough
    have ends : skipGaps (gaps' ++ ']' :: rest) = ']' :: rest := by
      rw [skipGaps_append only', skipGaps_cons rfl]
    simp [furtherParts, readItemsFrom, nextItem?_end false ends]
  | cons x items ih =>
    obtain ⟨first, others⟩ := List.forall_mem_cons.mp areRead
    obtain ⟨more, rfl⟩ := Nat.exists_eq_add_of_lt enough
    have next := nextItem?_later first (first.skipGaps_append only
      (furtherParts gaps (items.map written) ++ (gaps' ++ ']' :: rest)))
    have later := @ih others ((x :: items).length + more) (by simp; omega)
    rw [List.map_cons, furtherParts_cons]
    simp only [List.cons_append, List.append_assoc]
    rw [readItemsFrom, next]
    dsimp only
    rw [later]
    rfl

/-- A reader of lists reads what was written between the brackets. -/
theorem readItems_block {items : List β}
    (areRead : ∀ x ∈ items, IsRead item (written x) (meant x)) (level : Nat) (rest : Text) :
    ∃ inner, block '[' ']' level (items.map written) ++ rest = '[' :: inner ∧
      readItems item inner = .ok (items.map meant, rest) := by
  cases items with
  | nil =>
    refine ⟨']' :: rest, rfl, ?_⟩
    rw [readItems, readItemsFrom, nextItem?_end true (skipGaps_cons rfl rest)]
    rfl
  | cons x items =>
    obtain ⟨first, others⟩ := List.forall_mem_cons.mp areRead
    rw [List.map_cons, block_cons]
    refine ⟨_, rfl, ?_⟩
    have next := nextItem?_first first (first.skipGaps_append (isGaps_newLine (level + 1))
      (furtherParts (newLine (level + 1)) (items.map written) ++ (newLine level ++ ']' :: rest)))
    -- Every item left takes at least its comma, so the length of the text bounds the turns.
    have bound := length_le_furtherParts (newLine (level + 1)) (items.map written)
    rw [readItems, readItemsFrom, next]
    dsimp only
    rw [readItemsFrom_later (isGaps_newLine _) (isGaps_newLine _) others]
    · rfl
    · simp only [List.length_append, List.length_cons, List.length_map] at bound ⊢
      omega

end Lists

/-! ### Objects -/

section Objects

variable {member : MemberReader σ} {name input rest : Text}

theorem readString_quoted (name rest : Text) :
    ∃ inner, escape name ++ rest = '"' :: inner ∧ readString inner = .ok (name, rest) := by
  refine ⟨name.flatMap escapeCharacter ++ '"' :: rest, ?_, readString_escape name rest⟩
  simp [escape]

theorem nextName?_first (stands : skipGaps input = escape name ++ rest) :
    nextName? true input = .ok (some name, rest) := by
  obtain ⟨inner, starts, read⟩ := readString_quoted name rest
  rw [nextName?, stands, starts]
  change (readString inner).map _ = _
  rw [read]
  rfl

theorem nextName?_later (stands : skipGaps input = escape name ++ rest) :
    nextName? false (',' :: input) = .ok (some name, rest) := by
  obtain ⟨inner, starts, read⟩ := readString_quoted name rest
  rw [nextName?, skipGaps_cons rfl]
  split
  next none => cases none
  next same => exact absurd (List.cons.inj same).1 (by decide)
  next same =>
    cases same
    rw [if_neg Bool.false_ne_true, if_pos rfl, stands, starts]
    change (readString inner).map _ = _
    rw [read]
    rfl

theorem nextName?_end (first : Bool) (stands : skipGaps input = '\x7d' :: rest) :
    nextName? first input = .ok (none, '\x7d' :: rest) := by
  rw [nextName?, stands]
  rfl

/-- Members, each a name with the text after it, take a reader of members from what was read before
them to what was read after them. -/
inductive Leads (member : MemberReader σ) : σ → List (Text × Text) → σ → Prop where
  | done (state : σ) : Leads member state [] state
  | step {before between after : σ} {name body : Text} {members : List (Text × Text)}
      (reads : ∀ rest, member name before (body ++ rest) = .ok (between, rest))
      (later : Leads member between members after) :
      Leads member before ((name, body) :: members) after

/-- A member as it is written. -/
def writtenMember (member : Text × Text) : Text := escape member.1 ++ member.2

theorem skipGaps_writtenMember {gaps : Text} (only : IsGaps gaps) (name body rest : Text) :
    skipGaps (gaps ++ (writtenMember (name, body) ++ rest)) = escape name ++ (body ++ rest) := by
  rw [skipGaps_append only, writtenMember, List.append_assoc, escape, List.cons_append,
    skipGaps_cons rfl]

theorem readMembersFrom_later {gaps gaps' : Text} (only : IsGaps gaps) (only' : IsGaps gaps')
    {members : List (Text × Text)} {before after : σ} (leads : Leads member before members after)
    (rest : Text) {fuel : Nat} (enough : members.length < fuel) :
    readMembersFrom member fuel false before
        (furtherParts gaps (members.map writtenMember) ++ (gaps' ++ '\x7d' :: rest)) =
      .ok (after, rest) := by
  induction leads generalizing fuel with
  | done state =>
    obtain ⟨more, rfl⟩ := Nat.exists_eq_add_of_lt enough
    have ends : skipGaps (gaps' ++ '\x7d' :: rest) = '\x7d' :: rest := by
      rw [skipGaps_append only', skipGaps_cons rfl]
    simp [furtherParts, readMembersFrom, nextName?_end false ends]
  | @step before between after name body members reads later ih =>
    obtain ⟨more, rfl⟩ := Nat.exists_eq_add_of_lt enough
    have next := nextName?_later (skipGaps_writtenMember only name body
      (furtherParts gaps (members.map writtenMember) ++ (gaps' ++ '\x7d' :: rest)))
    have others := @ih (((name, body) :: members).length + more) (by simp; omega)
    rw [List.map_cons, furtherParts_cons]
    simp only [List.cons_append, List.append_assoc]
    rw [readMembersFrom, next]
    dsimp only
    rw [reads]
    exact others

theorem readMembers_block {members : List (Text × Text)} {start after : σ}
    (leads : Leads member start members after) (level : Nat) (rest : Text) :
    ∃ inner, block '\x7b' '\x7d' level (members.map writtenMember) ++ rest = '\x7b' :: inner ∧
      readMembers member start inner = .ok (after, rest) := by
  cases leads with
  | done =>
    refine ⟨'\x7d' :: rest, rfl, ?_⟩
    rw [readMembers, readMembersFrom, nextName?_end true (skipGaps_cons rfl rest)]
    rfl
  | @step _ between _ name body members reads later =>
    rw [List.map_cons, block_cons]
    refine ⟨_, rfl, ?_⟩
    have next := nextName?_first (skipGaps_writtenMember (isGaps_newLine (level + 1)) name body
      (furtherParts (newLine (level + 1)) (members.map writtenMember) ++
        (newLine level ++ '\x7d' :: rest)))
    have bound := length_le_furtherParts (newLine (level + 1)) (members.map writtenMember)
    rw [readMembers, readMembersFrom, next]
    dsimp only
    rw [reads]
    dsimp only
    rw [readMembersFrom_later (isGaps_newLine _) (isGaps_newLine _) later]
    simp only [List.length_append, List.length_cons, List.length_map] at bound ⊢
    omega

end Objects

/-! ### Values -/

theorem isRead_text (text : Text) : IsRead readText (escape text) text := by
  refine ⟨⟨'"', _, rfl, rfl, by decide⟩, fun input rest stands => ?_⟩
  obtain ⟨inner, starts, read⟩ := readString_quoted text rest
  rw [readText, stands, starts]
  exact read

theorem isRead_text? (text : Text) : IsRead readText? (escape text) (some text) := by
  refine ⟨⟨'"', _, rfl, rfl, by decide⟩, fun input rest stands => ?_⟩
  obtain ⟨inner, starts, read⟩ := readString_quoted text rest
  rw [readText?, stands, starts]
  change (readString inner).bind _ = _
  rw [read]
  rfl

theorem starts_block (opening closing : Char) (level : Nat) (parts : List Text) :
    ∃ rest, block opening closing level parts = opening :: rest := by
  cases parts with
  | nil => exact ⟨_, rfl⟩
  | cons part parts => exact ⟨_, rfl⟩

/-- A reader that goes on with the items behind an opening bracket reads a block of them. -/
theorem isRead_items {reader : Reader α} {value : α} {item : Reader γ} {written : β → Text}
    {meant : β → γ} {items : List β}
    (opens : ∀ input inner rest, skipGaps input = '[' :: inner →
      readItems item inner = .ok (items.map meant, rest) → reader input = .ok (value, rest))
    (areRead : ∀ x ∈ items, IsRead item (written x) (meant x)) (level : Nat) :
    IsRead reader (block '[' ']' level (items.map written)) value := by
  refine ⟨?_, fun input rest stands => ?_⟩
  · obtain ⟨rest, starts⟩ := starts_block '[' ']' level (items.map written)
    exact ⟨'[', rest, starts, rfl, by decide⟩
  · obtain ⟨inner, starts, read⟩ := readItems_block areRead level rest
    exact opens input inner rest (stands.trans starts) read

/-- A reader that goes on with the members behind an opening brace reads a block of them. -/
theorem isRead_members {reader : Reader α} {value : α} {member : MemberReader σ} {start after : σ}
    {members : List (Text × Text)}
    (opens : ∀ input inner rest, skipGaps input = '\x7b' :: inner →
      readMembers member start inner = .ok (after, rest) → reader input = .ok (value, rest))
    (leads : Leads member start members after) (level : Nat) :
    IsRead reader (block '\x7b' '\x7d' level (members.map writtenMember)) value := by
  refine ⟨?_, fun input rest stands => ?_⟩
  · obtain ⟨rest, starts⟩ := starts_block '\x7b' '\x7d' level (members.map writtenMember)
    exact ⟨'\x7b', rest, starts, rfl, by decide⟩
  · obtain ⟨inner, starts, read⟩ := readMembers_block leads level rest
    exact opens input inner rest (stands.trans starts) read

theorem isRead_list {item : Reader α} {written : β → Text} {meant : β → α} {items : List β}
    (areRead : ∀ x ∈ items, IsRead item (written x) (meant x)) (level : Nat) :
    IsRead (readList item) (block '[' ']' level (items.map written)) (items.map meant) := by
  refine isRead_items (fun input inner rest stands read => ?_) areRead level
  rw [readList, stands]
  exact read

/-- Behind a name stand a colon and a blank, and then the value. -/
theorem read_behindColon {reader : Reader α} {text : Text} {value : α}
    (isRead : IsRead reader text value) (rest : Text) :
    ∃ inner, readColon (": ".toList ++ text ++ rest) = .ok inner ∧
      reader inner = .ok (value, rest) := by
  have blank : IsGaps [' '] := by simp [IsGaps, isGap]
  refine ⟨' ' :: (text ++ rest), ?_, ?_⟩
  · rw [List.append_assoc]
    rfl
  · exact isRead.read _ rest (isRead.skipGaps_append blank rest)

/-- A field that was not read before is read from its colon on. -/
theorem readField_colon {reader : Reader α} {text : Text} {value : α}
    (isRead : IsRead reader text value) (name rest : Text) :
    readField name none reader (": ".toList ++ text ++ rest) = .ok (some value, rest) := by
  obtain ⟨inner, colon, read⟩ := read_behindColon isRead rest
  exact readField_first colon read

theorem isRead_string (depth : Nat) (text : Text) :
    IsRead (readValue (depth + 1)) (escape text) (.string text) := by
  refine ⟨⟨'"', _, rfl, rfl, by decide⟩, fun input rest stands => ?_⟩
  obtain ⟨inner, starts, read⟩ := readString_quoted text rest
  rw [readValue, stands, starts]
  change (readString inner).bind _ = _
  rw [read]
  rfl

theorem prettyItems_eq_map (level : Nat) (items : List Value) :
    prettyItems level items = items.map (·.pretty level) := by
  induction items with
  | nil => rfl
  | cons item items ih => rw [prettyItems, ih, List.map_cons]

/-- The name of a member, and what is written behind it. -/
def memberParts (level : Nat) (member : Text × Value) : Text × Text :=
  (member.1, ": ".toList ++ member.2.pretty level)

theorem prettyMembers_eq_map (level : Nat) (members : List (Text × Value)) :
    prettyMembers level members = (members.map (memberParts level)).map writtenMember := by
  induction members with
  | nil => rfl
  | cons member members ih =>
    obtain ⟨name, value⟩ := member
    rw [prettyMembers, ih]
    simp [writtenMember, memberParts]

theorem isRead_array {depth level : Nat} {items : List Value}
    (areRead : ∀ item ∈ items, IsRead (readValue (depth + 1)) (item.pretty (level + 1)) item) :
    IsRead (readValue (depth + 2)) ((Value.array items).pretty level) (.array items) := by
  rw [Value.pretty, prettyItems_eq_map]
  refine isRead_items (fun input inner rest stands read => ?_) areRead level
  rw [readValue, stands]
  change (readItems (readValue (depth + 1)) inner).bind _ = _
  rw [read, List.map_id']
  rfl

theorem leads_keepMember {depth level : Nat} {members : List (Text × Value)}
    (areRead : ∀ member ∈ members, IsRead (readValue depth) (member.2.pretty level) member.2)
    (before : List (Text × Value)) :
    Leads (keepMember (readValue depth)) before (members.map (memberParts level))
      (members.reverse ++ before) := by
  induction members generalizing before with
  | nil => exact .done before
  | cons member members ih =>
    obtain ⟨first, others⟩ := List.forall_mem_cons.mp areRead
    rw [List.reverse_cons, List.append_assoc]
    refine .step (fun rest => ?_) (ih others _)
    obtain ⟨inner, colon, read⟩ := read_behindColon first rest
    exact keepMember_eq_ok_iff.mpr ⟨inner, member.2, colon, read, by simp⟩

theorem isRead_object {depth level : Nat} {members : List (Text × Value)}
    (areRead : ∀ member ∈ members,
      IsRead (readValue (depth + 1)) (member.2.pretty (level + 1)) member.2) :
    IsRead (readValue (depth + 2)) ((Value.object members).pretty level) (.object members) := by
  rw [Value.pretty, prettyMembers_eq_map]
  refine isRead_members (fun input inner rest stands read => ?_) (leads_keepMember areRead []) level
  rw [readValue, stands]
  change (readMembers (keepMember (readValue (depth + 1))) [] inner).bind _ = _
  rw [read, List.append_nil]
  change Except.ok (Value.object members.reverse.reverse, rest) = _
  rw [List.reverse_reverse]

end KeyHarvest.Json
