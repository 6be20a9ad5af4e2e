import KeyHarvest.Buffer.Access
import KeyHarvest.Markup.Document

/-!
# Tags of a buffer

The scan for tags by places in a buffer. A place is moved on byte by byte and from one delimiter to
the next, and the texts of a tag are cut out at the end of its turn; every access of both kinds is
checked. Each turn moves the place on (`Buffer.turn_ahead`), so the scan ends.
-/
namespace KeyHarvest
open CodeUnit

def commentStart : Text := "<!--".toList

/-- What a turn of the scan came to, with the place where the next turn starts. -/
inductive Move where
  | finished
  | skipped (next : Nat)
  | found (tag : Tag Char) (next : Nat)
deriving DecidableEq, Repr

def Move.next? : Move → Option Nat
  | .finished => none
  | .skipped next => some next
  | .found _ next => some next

/-- The place of the first `>` at which no quote is open, among bytes that start at `place`. -/
def findUnquoted (quote : Option Char) (place : Nat) : List UInt8 → Option Nat
  | [] => none
  | byte :: rest =>
    if quote.isNone && is '>' byte then some place
    else findUnquoted (stepQuote quote byte) (place + 1) rest

theorem le_of_findUnquoted {quote : Option Char} {place found : Nat} {bytes : List UInt8}
    (finds : findUnquoted quote place bytes = some found) : place ≤ found := by
  induction bytes generalizing quote place with
  | nil => cases finds
  | cons byte rest ih =>
    rw [findUnquoted] at finds
    split at finds
    · cases finds
      exact Nat.le_refl _
    · exact Nat.le_of_succ_le (ih finds)

/-- The place of the `>` that closes a tag, given where the tag's name ends. When every `>` is
quoted, the first one closes the tag. -/
def findTagEnd (bytes : List UInt8) (place : Nat) : Option Nat :=
  findUnquoted none place (bytes.drop place) <|> findByte bytes '>' place

namespace Buffer

/-- Whether a `<` at the place starts markup. -/
def startsMarkupAt (buffer : Buffer) (place : Nat) : Bool :=
  match buffer.bytes[place + 1]? with
  | some byte => isLetter byte || is '/' byte || is '!' byte || is '?' byte
  | none => false

/-- The first place, from `place` on, where markup starts. -/
def findMarkup (buffer : Buffer) (place : Nat) : Option Nat :=
  match _finds : buffer.findByte '<' place with
  | none => none
  | some start => if buffer.startsMarkupAt start then some start else buffer.findMarkup (start + 1)
termination_by buffer.bytes.length - place
decreasing_by
  have bounds := findByte_bounds _finds
  omega

def findTagEnd (buffer : Buffer) (place : Nat) : Option Nat :=
  KeyHarvest.findTagEnd buffer.bytes place

def readTag (buffer : Buffer) (start : Nat) : Checked Move := do
  let nameEnd ← buffer.passWhile isTagNameUnit (start + 1)
  match buffer.findTagEnd nameEnd with
  | none => return .finished
  | some close =>
    let stop := (buffer.findMarkup (close + 1)).getD buffer.bytes.length
    let name ← buffer.slice (start + 1) nameEnd
    let attributes ← buffer.slice nameEnd close
    let followingText ← buffer.slice (close + 1) stop
    return .found ⟨name, attributes, followingText, start⟩ (close + 1)

/-- Reads the construct that starts at the place. -/
def readMarkup (buffer : Buffer) (start : Nat) : Checked Move := do
  let markup ← buffer.slice start buffer.bytes.length
  if commentStart.isPrefixOf markup then
    let body ← buffer.slice (start + 2) buffer.bytes.length
    match findPiece commentEnd body with
    | some inner => return .skipped (start + 2 + inner + size commentEnd)
    | none => return .finished
  else
    let mark ← buffer.byteAt (start + 1)
    if isLetter mark then buffer.readTag start
    else
      match buffer.findByte '>' (start + 1) with
      | some close => return .skipped (close + 1)
      | none => return .finished

def turn (buffer : Buffer) (place : Nat) : Checked Move :=
  match buffer.findMarkup place with
  | some start => buffer.readMarkup start
  | none => .ok .finished

/-! ### Every turn moves the place on -/

variable {buffer : Buffer} {place start : Nat}

theorem findMarkup_bounds (finds : buffer.findMarkup place = some start) :
    place ≤ start ∧ start < buffer.bytes.length := by
  fun_induction findMarkup buffer place with
  | case1 place none => cases finds
  | case2 place found stands markup =>
    cases finds
    exact findByte_bounds stands
  | case3 place found stands other ih =>
    have bounds := findByte_bounds stands
    have later := ih finds
    omega

theorem findMarkup_of_none (missing : buffer.findByte '<' place = none) :
    buffer.findMarkup place = none := by
  rw [findMarkup.eq_def]
  split <;> simp_all

theorem findMarkup_of_some (finds : buffer.findByte '<' place = some start) :
    buffer.findMarkup place =
      if buffer.startsMarkupAt start then some start else buffer.findMarkup (start + 1) := by
  rw [findMarkup.eq_def]
  split <;> simp_all

theorem le_of_findTagEnd {close : Nat} (finds : buffer.findTagEnd place = some close) :
    place ≤ close := by
  rw [findTagEnd, KeyHarvest.findTagEnd] at finds
  cases unquoted : findUnquoted none place (buffer.bytes.drop place) with
  | none =>
    rw [unquoted] at finds
    exact (findByte_bounds finds).1
  | some found =>
    rw [unquoted] at finds
    cases finds
    exact le_of_findUnquoted unquoted

theorem readTag_ahead {move : Move} (read : buffer.readTag start = .ok move) :
    ∀ next ∈ move.next?, start < next := by
  rw [readTag] at read
  obtain ⟨nameEnd, passed, read⟩ := Except.bind_eq_ok_iff.mp read
  have behind : start < nameEnd := by
    rw [passWhile_eq, Except.ok.injEq] at passed
    omega
  split at read
  · cases read
    simp [Move.next?]
  next close ends =>
    have closed := le_of_findTagEnd ends
    obtain ⟨name, -, read⟩ := Except.bind_eq_ok_iff.mp read
    obtain ⟨attributes, -, read⟩ := Except.bind_eq_ok_iff.mp read
    obtain ⟨followingText, -, read⟩ := Except.bind_eq_ok_iff.mp read
    cases read
    rintro next ⟨⟩
    omega

theorem readMarkup_ahead {move : Move} (read : buffer.readMarkup start = .ok move) :
    ∀ next ∈ move.next?, start < next := by
  rw [readMarkup] at read
  obtain ⟨markup, -, read⟩ := Except.bind_eq_ok_iff.mp read
  split at read
  · obtain ⟨body, -, read⟩ := Except.bind_eq_ok_iff.mp read
    split at read
    · cases read
      rintro next ⟨⟩
      omega
    · cases read
      simp [Move.next?]
  · obtain ⟨mark, -, read⟩ := Except.bind_eq_ok_iff.mp read
    split at read
    · exact readTag_ahead read
    · split at read
      next close ends =>
        have bounds := findByte_bounds ends
        cases read
        rintro next ⟨⟩
        omega
      · cases read
        simp [Move.next?]

theorem turn_ahead {move : Move} (went : buffer.turn place = .ok move) :
    ∀ next ∈ move.next?, place < next ∧ place < buffer.bytes.length := by
  rw [turn] at went
  split at went
  next start found =>
    have bounds := findMarkup_bounds found
    intro next member
    have ahead := readMarkup_ahead went next member
    omega
  · cases went
    simp [Move.next?]

/-- The tags from a place on. -/
def tags (buffer : Buffer) (place : Nat) : Checked (List (Tag Char)) :=
  match _went : buffer.turn place with
  | .error fault => .error fault
  | .ok .finished => .ok []
  | .ok (.skipped next) => buffer.tags next
  | .ok (.found tag next) => do
    let others ← buffer.tags next
    return tag :: others
termination_by buffer.bytes.length - place
decreasing_by
  all_goals
    have ahead := turn_ahead _went next rfl
    omega

end Buffer
end KeyHarvest
