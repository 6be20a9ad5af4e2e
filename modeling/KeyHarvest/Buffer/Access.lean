import KeyHarvest.Text.Attempt
import KeyHarvest.Text.Utf8

/-!
# Texts as buffers

A text held as its bytes, of which places are numbers of bytes. Two kinds of access can fail: a byte
is asked for where the buffer has ended, or a part is asked for whose ends do not stand between
characters of the text, in this order. A failed access ends everything with a `Fault`. A search for
a byte cannot fail: behind the end it finds nothing.
-/
namespace KeyHarvest
open CodeUnit

/-- An access that failed. -/
inductive Fault where
  | byte (place : Nat)
  | part (start stop : Nat)
deriving DecidableEq, Repr

abbrev Checked (β : Type) := Except Fault β

/-- A text together with its bytes. -/
structure Buffer where
  text : Text
  bytes : List UInt8 := encode text
  encoded : bytes = encode text := by rfl

/-- Cuts a text after a number of bytes, unless it ends before or the place is in a character. -/
def splitBytes? (count : Nat) : Text → Option (Text × Text)
  | [] => if count = 0 then some ([], []) else none
  | c :: rest =>
    if count = 0 then some ([], c :: rest)
    else if width c ≤ count then
      (splitBytes? (count - width c) rest).map fun (before, after) => (c :: before, after)
    else none

/-- The number of bytes before the first occurrence of a piece in a text. -/
def findPiece (piece : Text) : Text → Option Nat
  | [] => if piece.isEmpty then some 0 else none
  | c :: rest =>
    if piece.isPrefixOf (c :: rest) then some 0
    else (findPiece piece rest).map (width c + ·)

/-- The place of the first such byte, from `place` on. -/
def findByte (bytes : List UInt8) (sought : Char) (place : Nat) : Option Nat :=
  ((bytes.drop place).findIdx? (is sought)).map (place + ·)

namespace Buffer

def of (text : Text) : Buffer := { text }

def byteAt (buffer : Buffer) (place : Nat) : Checked UInt8 :=
  match buffer.bytes[place]? with
  | some byte => .ok byte
  | none => .error (.byte place)

/-- The part of the text between two places. -/
def slice (buffer : Buffer) (start stop : Nat) : Checked Text :=
  match (splitBytes? stop buffer.text).bind fun (before, _) => splitBytes? start before with
  | some (_, part) => .ok part
  | none => .error (.part start stop)

/-- The first place, from `place` on, whose byte does not have the property. -/
def passWhile (buffer : Buffer) (property : UInt8 → Bool) (place : Nat) : Checked Nat :=
  if _inside : place < buffer.bytes.length then do
    if property (← buffer.byteAt place) then buffer.passWhile property (place + 1) else return place
  else return place
termination_by buffer.bytes.length - place

def findByte (buffer : Buffer) (sought : Char) (place : Nat) : Option Nat :=
  KeyHarvest.findByte buffer.bytes sought place

end Buffer

/-! ### When an access succeeds -/

theorem splitBytes?_append (before after : Text) :
    splitBytes? (size before) (before ++ after) = some (before, after) := by
  induction before with
  | nil => cases after <;> rfl
  | cons c before ih =>
    have wide := width_pos c
    rw [List.cons_append, splitBytes?, size_cons, if_neg (by omega), if_pos (Nat.le_add_right _ _),
      Nat.add_sub_cancel_left, ih]
    rfl

theorem append_of_splitBytes? {count : Nat} {text before after : Text}
    (cut : splitBytes? count text = some (before, after)) :
    text = before ++ after ∧ size before = count := by
  induction text generalizing count before with
  | nil =>
    rw [splitBytes?] at cut
    split at cut
    next empty =>
      cases cut
      exact ⟨rfl, empty.symm⟩
    · cases cut
  | cons c rest ih =>
    rw [splitBytes?] at cut
    split at cut
    next empty =>
      cases cut
      exact ⟨rfl, empty.symm⟩
    · split at cut
      next fits =>
        -- The first character stands before the cut, and the others are cut after the rest.
        obtain ⟨⟨left, right⟩, found, equal⟩ := Option.map_eq_some_iff.mp cut
        cases equal
        obtain ⟨rfl, passed⟩ := ih found
        refine ⟨rfl, ?_⟩
        rw [size_cons, passed]
        omega
      · cases cut

theorem splitBytes?_eq_some_iff {count : Nat} {text before after : Text} :
    splitBytes? count text = some (before, after) ↔
      text = before ++ after ∧ size before = count := by
  constructor
  · exact append_of_splitBytes?
  · rintro ⟨rfl, rfl⟩
    exact splitBytes?_append before after

/-- The place stands between two characters of the text, or at one of its ends. -/
def IsBoundary (text : Text) (place : Nat) : Prop :=
  ∃ before after, text = before ++ after ∧ size before = place

namespace Buffer

/-- A slice that succeeds is the part of the text between its ends. -/
theorem slice_eq_ok_iff {buffer : Buffer} {start stop : Nat} {part : Text} :
    buffer.slice start stop = .ok part ↔
      ∃ before after, buffer.text = before ++ part ++ after ∧ size before = start ∧
        size (before ++ part) = stop := by
  rw [slice]
  constructor
  · intro found
    split at found
    next part' cut =>
      cases found
      obtain ⟨⟨upTo, after⟩, first, second⟩ := Option.bind_eq_some_iff.mp cut
      obtain ⟨whole, passed⟩ := splitBytes?_eq_some_iff.mp first
      obtain ⟨rfl, skipped⟩ := splitBytes?_eq_some_iff.mp second
      exact ⟨_, after, whole, skipped, passed⟩
    · cases found
  · rintro ⟨before, after, whole, skipped, passed⟩
    have first := splitBytes?_eq_some_iff.mpr ⟨whole, passed⟩
    have second := splitBytes?_eq_some_iff.mpr ⟨(rfl : before ++ part = before ++ part), skipped⟩
    simp only [first, Option.bind_some, second]

/-! ### Passing and finding -/

variable {buffer : Buffer} {place : Nat}

theorem byteAt_of_lt (inside : place < buffer.bytes.length) :
    buffer.byteAt place = .ok buffer.bytes[place] := by
  rw [byteAt, List.getElem?_eq_getElem inside]

/-- Every byte that is looked at while passing is there. -/
theorem passWhile_eq (property : UInt8 → Bool) :
    buffer.passWhile property place =
      .ok (place + ((buffer.bytes.drop place).takeWhile property).length) := by
  fun_induction passWhile buffer property place with
  | case1 place inside ih =>
    rw [byteAt_of_lt inside, List.drop_eq_getElem_cons inside, List.takeWhile_cons]
    change (if property buffer.bytes[place] = true then _ else _) = _
    split
    next holds =>
      rw [ih, List.length_cons, Nat.add_assoc, Nat.add_comm 1]
    next fails => rfl
  | case2 place outside =>
    rw [List.drop_eq_nil_of_le (Nat.le_of_not_lt outside)]
    rfl

theorem findByte_bounds {sought : Char} {found : Nat}
    (finds : buffer.findByte sought place = some found) :
    place ≤ found ∧ found < buffer.bytes.length := by
  obtain ⟨index, stands, rfl⟩ := Option.map_eq_some_iff.mp finds
  obtain ⟨inside, -⟩ := List.findIdx?_eq_some_iff_getElem.mp stands
  rw [List.length_drop] at inside
  omega

end Buffer
end KeyHarvest
