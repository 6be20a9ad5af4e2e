import KeyHarvest.Buffer.Access
import KeyHarvest.Markup.Attribute

/-!
# Attributes of a buffer

The attributes of a tag by places in its attribute text, with every access checked. Each turn moves
the place on (`Buffer.readAttribute_ahead`), also where it only passes over a byte.
-/
namespace KeyHarvest
open CodeUnit

namespace Buffer

/-- The quote at a place; there is none at the end. -/
def quoteAt? (buffer : Buffer) (place : Nat) : Checked (Option UInt8) :=
  if place < buffer.bytes.length then do
    let byte ← buffer.byteAt place
    return if isQuote byte then some byte else none
  else return none

/-- The value that starts at a place and goes up to the next such quote, and the place behind that
quote. -/
def readQuoted (buffer : Buffer) (quote : UInt8) (start : Nat) : Checked (Text × Nat) := do
  let stop ← buffer.passWhile (· != quote) start
  let value ← buffer.slice start stop
  return (value, if stop < buffer.bytes.length then stop + 1 else stop)

def readBare (buffer : Buffer) (start : Nat) : Checked (Text × Nat) := do
  let stop ← buffer.passWhile (!isSpace ·) start
  let value ← buffer.slice start stop
  return (value, stop)

/-- The value behind an `=`, and the place behind the value. -/
def readValue (buffer : Buffer) (place : Nat) : Checked (Text × Nat) := do
  let start ← buffer.passWhile isSpace place
  match ← buffer.quoteAt? start with
  | some quote => buffer.readQuoted quote (start + 1)
  | none => buffer.readBare start

/-- Whether an `=` stands at a place; there is none at the end. -/
def equalsAt (buffer : Buffer) (place : Nat) : Checked Bool :=
  if place < buffer.bytes.length then do
    let byte ← buffer.byteAt place
    return is '=' byte
  else return false

/-- The value behind a name, if there is one, and the place where the next turn starts. -/
def readAssignment (buffer : Buffer) (place : Nat) : Checked (Option Text × Nat) := do
  let next ← buffer.passWhile isSpace place
  if ← buffer.equalsAt next then
    let (value, stop) ← buffer.readValue (next + 1)
    return (some value, stop)
  else return (none, next)

/-- One turn of reading: `none` at the end, and else the attribute that was read, if there is one,
and the place where the next turn starts. -/
def readAttribute (buffer : Buffer) (place : Nat) :
    Checked (Option (Option (Attribute Char) × Nat)) := do
  let start ← buffer.passWhile isSpace place
  if start < buffer.bytes.length then
    let stop ← buffer.passWhile isAttributeNameUnit start
    if stop = start then return some (none, start + 1)
    else
      let name ← buffer.slice start stop
      let (value, next) ← buffer.readAssignment stop
      return some (some ⟨name, value⟩, next)
  else return none

/-! ### Every turn moves the place on -/

variable {buffer : Buffer} {place next : Nat}

theorem le_of_passWhile {property : UInt8 → Bool}
    (passed : buffer.passWhile property place = .ok next) : place ≤ next := by
  rw [passWhile_eq, Except.ok.injEq] at passed
  omega

theorem le_of_readQuoted {quote : UInt8} {value : Text}
    (read : buffer.readQuoted quote place = .ok (value, next)) : place ≤ next := by
  obtain ⟨stop, passed, read⟩ := Except.bind_eq_ok_iff.mp read
  obtain ⟨text, -, read⟩ := Except.bind_eq_ok_iff.mp read
  have behind := le_of_passWhile passed
  cases read
  split <;> omega

theorem le_of_readBare {value : Text} (read : buffer.readBare place = .ok (value, next)) :
    place ≤ next := by
  obtain ⟨stop, passed, read⟩ := Except.bind_eq_ok_iff.mp read
  obtain ⟨text, -, read⟩ := Except.bind_eq_ok_iff.mp read
  cases read
  exact le_of_passWhile passed

theorem le_of_readValue {value : Text} (read : buffer.readValue place = .ok (value, next)) :
    place ≤ next := by
  obtain ⟨start, passed, read⟩ := Except.bind_eq_ok_iff.mp read
  obtain ⟨quote, -, read⟩ := Except.bind_eq_ok_iff.mp read
  have space := le_of_passWhile passed
  split at read
  · have quoted := le_of_readQuoted read
    omega
  · exact Nat.le_trans space (le_of_readBare read)

theorem le_of_readAssignment {value : Option Text}
    (read : buffer.readAssignment place = .ok (value, next)) : place ≤ next := by
  obtain ⟨stop, passed, read⟩ := Except.bind_eq_ok_iff.mp read
  obtain ⟨equals, -, read⟩ := Except.bind_eq_ok_iff.mp read
  have space := le_of_passWhile passed
  split at read
  · obtain ⟨⟨text, behind⟩, assigned, read⟩ := Except.bind_eq_ok_iff.mp read
    have valued := le_of_readValue assigned
    cases read
    omega
  · cases read
    exact space

theorem readAttribute_ahead {declared : Option (Attribute Char)}
    (read : buffer.readAttribute place = .ok (some (declared, next))) :
    place < next ∧ place < buffer.bytes.length := by
  obtain ⟨start, spaces, read⟩ := Except.bind_eq_ok_iff.mp read
  have space := le_of_passWhile spaces
  split at read
  next inside =>
    refine ⟨?_, by omega⟩
    obtain ⟨stop, named, read⟩ := Except.bind_eq_ok_iff.mp read
    have name := le_of_passWhile named
    split at read
    · cases read
      omega
    next some =>
      obtain ⟨text, -, read⟩ := Except.bind_eq_ok_iff.mp read
      obtain ⟨⟨value, behind⟩, assigned, read⟩ := Except.bind_eq_ok_iff.mp read
      have later := le_of_readAssignment assigned
      cases read
      omega
  · cases read

/-- The attributes from a place on. -/
def attributes (buffer : Buffer) (place : Nat) : Checked (List (Attribute Char)) :=
  match _read : buffer.readAttribute place with
  | .error fault => .error fault
  | .ok none => .ok []
  | .ok (some (none, next)) => buffer.attributes next
  | .ok (some (some declared, next)) => do
    let others ← buffer.attributes next
    return declared :: others
termination_by buffer.bytes.length - place
decreasing_by
  all_goals
    have ahead := readAttribute_ahead _read
    omega

end Buffer
end KeyHarvest
