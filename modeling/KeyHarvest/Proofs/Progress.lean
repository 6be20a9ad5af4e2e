import KeyHarvest.Buffer.Next
import KeyHarvest.Proofs.BufferAttributes
import KeyHarvest.Proofs.BufferScan
import Mathlib.Control.Monad.Basic

/-!
# Scans and their places

The place of a scan stands between two characters of its text, at the start or at the end. Each turn
keeps it so and moves it on (`Buffer.exists_turn`, `Buffer.exists_readAttribute`), which is all that
a run needs: a scan fails nowhere and ends. Its calls give one tag after the other, each with the
place behind the `<` of the tag, and then nothing more (`Buffer.call_text`, `Buffer.call_ended`).
Between two tags there is at least the `<` of the first, and between two attributes at least one
byte, so there are not more of them than that.
-/
namespace KeyHarvest
open CodeUnit

namespace Buffer

variable {buffer : Buffer} {place : Nat}

/-! ### Places between characters -/

theorem le_of_isBoundary (boundary : IsBoundary buffer.text place) :
    place ≤ buffer.bytes.length := by
  obtain ⟨before, after, whole, rfl⟩ := boundary
  rw [length_bytes whole]
  exact Nat.le_add_right _ _

theorem isBoundary_start (text : Text) : IsBoundary text 0 := ⟨[], text, rfl, rfl⟩

theorem isBoundary_end (buffer : Buffer) : IsBoundary buffer.text buffer.bytes.length :=
  have whole : buffer.text = buffer.text ++ [] := (List.append_nil _).symm
  ⟨buffer.text, [], whole, (length_bytes whole).symm⟩

/-- A turn of the scan succeeds, and one that does not end the scan moves its place on. -/
theorem exists_turn (boundary : IsBoundary buffer.text place) :
    ∃ move, buffer.turn place = .ok move ∧
      ∀ after ∈ move.next?, place < after ∧ IsBoundary buffer.text after := by
  obtain ⟨before, rest, whole, rfl⟩ := boundary
  have moved := turn_text whole
  refine ⟨_, moved, fun after goesOn => ⟨(turn_ahead moved after goesOn).1, ?_⟩⟩
  -- The place of the scanner of the text counts the bytes of what it took.
  have behind {next : Scanner Char} (went : Scanner.turn ⟨rest, size before⟩ = .skipped next ∨
      ∃ tag, Scanner.turn ⟨rest, size before⟩ = .found tag next) :
      IsBoundary buffer.text next.offset := by
    obtain ⟨taken, equal, offset⟩ := Scanner.exists_of_turn went
    refine ⟨before ++ taken, next.rest, ?_, ?_⟩
    · rw [whole, List.append_assoc]
      exact congrArg (before ++ ·) equal
    · rw [offset, size_append]
  cases went : Scanner.turn ⟨rest, size before⟩ with
  | finished =>
    rw [went] at goesOn
    cases goesOn
  | skipped next =>
    rw [went] at goesOn
    cases goesOn
    exact behind (.inl went)
  | found tag next =>
    rw [went] at goesOn
    cases goesOn
    exact behind (.inr ⟨tag, went⟩)

/-- A turn of reading attributes succeeds, and one that is not the last moves the place on. -/
theorem exists_readAttribute (boundary : IsBoundary buffer.text place) :
    ∃ outcome, buffer.readAttribute place = .ok outcome ∧
      ∀ declared after, outcome = some (declared, after) →
        place < after ∧ IsBoundary buffer.text after := by
  obtain ⟨before, rest, whole, rfl⟩ := boundary
  have turned := readAttribute_text whole
  cases read : KeyHarvest.readAttribute rest with
  | none =>
    rw [read] at turned
    exact ⟨none, turned, by simp⟩
  | some reading =>
    obtain ⟨declared, remaining⟩ := reading
    rw [read] at turned
    obtain ⟨taken, equal, moved⟩ := turned
    refine ⟨_, moved, ?_⟩
    rintro _ _ ⟨⟩
    refine ⟨(readAttribute_ahead moved).1, before ++ taken, remaining, ?_, rfl⟩
    rw [whole, equal, List.append_assoc]

/-! ### Where a tag stands -/

theorem is_of_findByte {sought : Char} {found : Nat}
    (finds : buffer.findByte sought place = some found) :
    ∃ byte, buffer.bytes[found]? = some byte ∧ is sought byte = true := by
  obtain ⟨index, stands, rfl⟩ := Option.map_eq_some_iff.mp finds
  obtain ⟨inside, same, -⟩ := List.findIdx?_eq_some_iff_getElem.mp stands
  refine ⟨_, ?_, same⟩
  rw [← List.getElem?_drop]
  exact List.getElem?_eq_getElem inside

theorem is_of_findMarkup {start : Nat} (finds : buffer.findMarkup place = some start) :
    ∃ byte, buffer.bytes[start]? = some byte ∧ is '<' byte = true := by
  fun_induction findMarkup buffer place with
  | case1 place none => cases finds
  | case2 place found stands markup =>
    cases finds
    exact is_of_findByte stands
  | case3 place found stands other ih => exact ih finds

theorem offset_of_readTag {start after : Nat} {tag : Tag Char}
    (read : buffer.readTag start = .ok (.found tag after)) : tag.offset = start := by
  rw [readTag] at read
  obtain ⟨nameEnd, -, read⟩ := Except.bind_eq_ok_iff.mp read
  split at read
  · cases read
  · obtain ⟨name, -, read⟩ := Except.bind_eq_ok_iff.mp read
    obtain ⟨attributes, -, read⟩ := Except.bind_eq_ok_iff.mp read
    obtain ⟨followingText, -, read⟩ := Except.bind_eq_ok_iff.mp read
    cases read
    rfl

theorem offset_of_readMarkup {start after : Nat} {tag : Tag Char}
    (read : buffer.readMarkup start = .ok (.found tag after)) : tag.offset = start := by
  rw [readMarkup] at read
  obtain ⟨markup, -, read⟩ := Except.bind_eq_ok_iff.mp read
  split at read
  · obtain ⟨body, -, read⟩ := Except.bind_eq_ok_iff.mp read
    split at read
    · cases read
    · cases read
  · obtain ⟨mark, -, read⟩ := Except.bind_eq_ok_iff.mp read
    split at read
    · exact offset_of_readTag read
    · split at read
      · cases read
      · cases read

/-- A tag that a turn finds starts with a `<` between the places before and after the turn. -/
theorem tag_of_turn {after : Nat} {tag : Tag Char}
    (went : buffer.turn place = .ok (.found tag after)) :
    place ≤ tag.offset ∧ tag.offset < after ∧
      ∃ byte, buffer.bytes[tag.offset]? = some byte ∧ is '<' byte = true := by
  rw [turn] at went
  split at went
  next start found =>
    rw [offset_of_readMarkup went]
    exact ⟨(findMarkup_bounds found).1, readMarkup_ahead went after rfl, is_of_findMarkup found⟩
  · cases went

/-! ### How many tags and attributes there are -/

/-- There are no more tags than bytes `<` from the place of the scan on. -/
theorem length_tags_le {found : List (Tag Char)} (scanned : buffer.tags place = .ok found) :
    found.length ≤ (buffer.bytes.drop place).countP (is '<') := by
  -- Fewer bytes are left behind a later place.
  have later {place after : Nat} (ahead : place ≤ after) :
      (buffer.bytes.drop after).countP (is '<') ≤ (buffer.bytes.drop place).countP (is '<') :=
    (List.drop_sublist_drop_left buffer.bytes ahead).countP_le
  fun_induction tags buffer place generalizing found with
  | case1 place fault went => cases scanned
  | case2 place went =>
    cases scanned
    exact Nat.zero_le _
  | case3 place after went ih =>
    have ahead := (turn_ahead went after rfl).1
    exact Nat.le_trans (ih scanned) (later (Nat.le_of_lt ahead))
  | case4 place tag after went ih =>
    obtain ⟨others, rest, scanned⟩ := Except.bind_eq_ok_iff.mp scanned
    cases scanned
    obtain ⟨stands, behind, byte, here, isStart⟩ := tag_of_turn went
    obtain ⟨inside, rfl⟩ := List.getElem?_eq_some_iff.mp here
    calc (tag :: others).length
        ≤ (buffer.bytes.drop after).countP (is '<') + 1 := Nat.succ_le_succ (ih rest)
      _ ≤ (buffer.bytes.drop (tag.offset + 1)).countP (is '<') + 1 :=
          Nat.succ_le_succ (later behind)
      _ = (buffer.bytes.drop tag.offset).countP (is '<') := by
          rw [List.drop_eq_getElem_cons inside, List.countP_cons_of_pos isStart]
      _ ≤ (buffer.bytes.drop place).countP (is '<') := later stands

/-- There are no more attributes than bytes from the place of the reader on. -/
theorem length_attributes_le {declared : List (Attribute Char)}
    (read : buffer.attributes place = .ok declared) :
    declared.length ≤ buffer.bytes.length - place := by
  fun_induction attributes buffer place generalizing declared with
  | case1 place fault turned => cases read
  | case2 place turned =>
    cases read
    exact Nat.zero_le _
  | case3 place after turned ih =>
    have ahead := readAttribute_ahead turned
    have others := ih read
    omega
  | case4 place entry after turned ih =>
    obtain ⟨others, rest, read⟩ := Except.bind_eq_ok_iff.mp read
    cases read
    have ahead := readAttribute_ahead turned
    have fewer := ih rest
    rw [List.length_cons]
    omega

/-! ### Calls -/

theorem stopAt_of_none (missing : buffer.findMarkup place = none) : buffer.stopAt place = place := by
  rw [stopAt, missing]

theorem stopAt_of_some {start : Nat} (found : buffer.findMarkup place = some start) :
    buffer.stopAt place = buffer.bytes.length := by
  rw [stopAt, found]

/-- At the end no markup starts. -/
theorem findMarkup_end (buffer : Buffer) : buffer.findMarkup buffer.bytes.length = none := by
  cases found : buffer.findMarkup buffer.bytes.length with
  | none => rfl
  | some start =>
    have bounds := findMarkup_bounds found
    omega

theorem turn_of_none (missing : buffer.findMarkup place = none) :
    buffer.turn place = .ok .finished := by
  rw [turn, missing]

/-- Where a scan has stopped it stops again, without moving. -/
theorem turn_stopAt (went : buffer.turn place = .ok .finished) :
    buffer.turn (buffer.stopAt place) = .ok .finished ∧
      buffer.stopAt (buffer.stopAt place) = buffer.stopAt place := by
  cases found : buffer.findMarkup place with
  | none =>
    have stays := stopAt_of_none found
    exact ⟨by rw [stays, went], by rw [stays, stays]⟩
  | some start =>
    rw [stopAt_of_some found]
    exact ⟨turn_of_none (findMarkup_end buffer), stopAt_of_none (findMarkup_end buffer)⟩

theorem isBoundary_stopAt (boundary : IsBoundary buffer.text place) :
    IsBoundary buffer.text (buffer.stopAt place) := by
  cases found : buffer.findMarkup place with
  | none => rwa [stopAt_of_none found]
  | some start =>
    rw [stopAt_of_some found]
    exact isBoundary_end buffer

theorem next_of_finished (went : buffer.turn place = .ok .finished) :
    buffer.next place = .ok (none, buffer.stopAt place) := by
  rw [next.eq_def]
  split <;> simp_all

/-- A call that gives nothing is followed by calls that give nothing and change nothing. -/
theorem next_ended {after : Nat} (ended : buffer.next place = .ok (none, after)) :
    buffer.next after = .ok (none, after) := by
  fun_induction next buffer place with
  | case1 place fault went => cases ended
  | case2 place went =>
    cases ended
    obtain ⟨again, stays⟩ := turn_stopAt went
    rw [next_of_finished again, stays]
  | case3 place skipped went ih => exact ih ended
  | case4 place tag found went => cases ended

/-- A call gives the first of the tags that are left, and leaves the others. -/
theorem next_text (boundary : IsBoundary buffer.text place) {found : List (Tag Char)}
    (scanned : buffer.tags place = .ok found) :
    ∃ after, buffer.next place = .ok (found.head?, after) ∧ IsBoundary buffer.text after ∧
      buffer.tags after = .ok found.tail ∧
        ∀ tag ∈ found.head?, place ≤ tag.offset ∧ tag.offset < after := by
  fun_induction next buffer place with
  | case1 place fault went =>
    obtain ⟨move, moved, -⟩ := exists_turn boundary
    rw [went] at moved
    cases moved
  | case2 place went =>
    rw [tags_of_finished went] at scanned
    cases scanned
    refine ⟨_, rfl, isBoundary_stopAt boundary, tags_of_finished (turn_stopAt went).1, ?_⟩
    simp
  | case3 place skipped went ih =>
    obtain ⟨move, moved, onward⟩ := exists_turn boundary
    rw [went] at moved
    cases moved
    obtain ⟨ahead, behind⟩ := onward skipped rfl
    rw [tags_of_skipped went] at scanned
    obtain ⟨after, called, stands, rest, bounds⟩ := ih behind scanned
    refine ⟨after, called, stands, rest, fun tag first => ?_⟩
    have later := bounds tag first
    omega
  | case4 place tag after went =>
    obtain ⟨move, moved, onward⟩ := exists_turn boundary
    rw [went] at moved
    cases moved
    rw [tags_of_found went] at scanned
    obtain ⟨others, rest, scanned⟩ := Except.bind_eq_ok_iff.mp scanned
    cases scanned
    obtain ⟨stands, behind, -⟩ := tag_of_turn went
    refine ⟨after, rfl, (onward after rfl).2, rest, ?_⟩
    rintro _ ⟨⟩
    exact ⟨stands, behind⟩

/-- The calls give the tags of the text in order, each with a place behind the start of the tag. -/
theorem call_text (text : Text) (number : Nat) :
    ∃ place, (of text).call number = .ok ((KeyHarvest.tags text)[number]?, place) ∧
      IsBoundary text place ∧
      (of text).tags place = .ok ((KeyHarvest.tags text).drop (number + 1)) ∧
        ∀ tag ∈ (KeyHarvest.tags text)[number]?, tag.offset < place := by
  induction number with
  | zero =>
    obtain ⟨place, called, boundary, rest, bounds⟩ :=
      next_text (isBoundary_start (of text).text) (tags_of text)
    rw [List.head?_eq_getElem?] at called bounds
    rw [← List.drop_one] at rest
    exact ⟨place, called, boundary, rest, fun tag first => (bounds tag first).2⟩
  | succ number ih =>
    obtain ⟨before, called, boundary, left, -⟩ := ih
    obtain ⟨place, calledNext, boundary, rest, bounds⟩ := next_text boundary left
    rw [List.head?_drop] at calledNext bounds
    rw [List.tail_drop] at rest
    refine ⟨place, ?_, boundary, rest, fun tag first => (bounds tag first).2⟩
    rw [call, called, Except.ok_bind]
    exact calledNext

/-- After a call that gave nothing, every later one gives nothing and changes nothing. -/
theorem call_ended {number : Nat} (ended : buffer.call number = .ok (none, place)) :
    ∀ later, number ≤ later → buffer.call later = .ok (none, place) := by
  have stays : buffer.next place = .ok (none, place) := by
    cases number with
    | zero => exact next_ended ended
    | succ number =>
      obtain ⟨⟨tag, before⟩, -, ended⟩ := Except.bind_eq_ok_iff.mp ended
      exact next_ended ended
  intro later since
  obtain ⟨more, rfl⟩ := Nat.exists_eq_add_of_le since
  clear since
  induction more with
  | zero => exact ended
  | succ more ih =>
    rw [← Nat.add_assoc, call, ih, Except.ok_bind]
    exact stays

/-! ### Progress -/

/-- Between characters, where all places of a scan are, every turn succeeds, and one after which the
scan goes on moves the place on, but not past the end. The calls give the tags of the text, each
with a place behind the start of its tag, and from the first that gives nothing on all of them give
nothing. There are no more tags than bytes `<`. So with the attributes: every turn succeeds and
moves the place on, and there are no more of them than bytes. -/
theorem scans_progress (text raw : Text) :
    (∀ place, IsBoundary text place →
        ∃ move, (of text).turn place = .ok move ∧
          ∀ after ∈ move.next?,
            place < after ∧ after ≤ (encode text).length ∧ IsBoundary text after) ∧
      (∀ number, ∃ place, (of text).call number = .ok ((KeyHarvest.tags text)[number]?, place) ∧
        IsBoundary text place ∧ ∀ tag ∈ (KeyHarvest.tags text)[number]?, tag.offset < place) ∧
      (∀ number place, (of text).call number = .ok (none, place) →
        ∀ later, number ≤ later → (of text).call later = .ok (none, place)) ∧
      (KeyHarvest.tags text).length ≤ (encode text).countP (is '<') ∧
      (∀ place, IsBoundary raw place →
        ∃ outcome, (of raw).readAttribute place = .ok outcome ∧
          ∀ declared after, outcome = some (declared, after) →
            place < after ∧ after ≤ (encode raw).length ∧ IsBoundary raw after) ∧
      ∃ declared, (of raw).attributes 0 = .ok declared ∧
        declared.length ≤ (encode raw).length := by
  refine ⟨fun place boundary => ?_, fun number => ?_, fun number place => call_ended,
    length_tags_le (tags_of text), fun place boundary => ?_,
    ⟨_, attributes_of raw, length_attributes_le (attributes_of raw)⟩⟩
  · obtain ⟨move, moved, onward⟩ := @exists_turn (of text) place boundary
    refine ⟨move, moved, fun after goesOn => ?_⟩
    obtain ⟨ahead, behind⟩ := onward after goesOn
    exact ⟨ahead, le_of_isBoundary behind, behind⟩
  · obtain ⟨place, called, boundary, -, bounds⟩ := call_text text number
    exact ⟨place, called, boundary, bounds⟩
  · obtain ⟨outcome, read, onward⟩ := @exists_readAttribute (of raw) place boundary
    refine ⟨outcome, read, fun declared after goesOn => ?_⟩
    obtain ⟨ahead, behind⟩ := onward declared after goesOn
    exact ⟨ahead, le_of_isBoundary behind, behind⟩

/-- A comment, a letter of two bytes and a tag. -/
def commented : Text := "<!-- -->é<b c>".toList

/-- The slash is passed over by a turn of its own, and the value ends with the text. -/
def slashed : Text := " /é='c d".toList

theorem scans_progress_commented :
    (of commented).turn 0 = .ok (.skipped 8) ∧ 0 < 8 ∧ 8 ≤ (encode commented).length ∧
      (∀ later, 1 ≤ later → (of commented).call later = .ok (none, 15)) ∧
      (KeyHarvest.tags commented).length ≤ 2 ∧
      (of slashed).readAttribute 0 = .ok (some (none, 2)) ∧ 0 < 2 ∧
      2 ≤ (encode slashed).length := by
  obtain ⟨turns, -, ended, few, turns', -⟩ := scans_progress commented slashed
  have went : (of commented).turn 0 = .ok (.skipped 8) := by decide +kernel
  have read : (of slashed).readAttribute 0 = .ok (some (none, 2)) := by decide +kernel
  have called : (of commented).call 1 = .ok (none, 15) := by decide +kernel
  obtain ⟨move, moved, onward⟩ := turns 0 (isBoundary_start commented)
  obtain rfl := Except.ok.inj (went.symm.trans moved)
  obtain ⟨ahead, inside, -⟩ := onward 8 rfl
  obtain ⟨outcome, found, onward'⟩ := turns' 0 (isBoundary_start slashed)
  obtain rfl := Except.ok.inj (read.symm.trans found)
  obtain ⟨ahead', inside', -⟩ := onward' none 2 rfl
  exact ⟨went, ahead, inside, ended 1 15 called, few, read, ahead', inside'⟩

end Buffer
end KeyHarvest
