import KeyHarvest.Buffer.Tags

/-!
# Tags one by one

The scan of a buffer as one call after the other, each of which goes on from the place that the call
before it left. `Buffer.next` is a call: it takes turns until one of them finds a tag or ends the
scan. Where no markup is left the place stays as it is, and markup without an end moves it to the
end of the buffer (`Buffer.stopAt`).
-/
namespace KeyHarvest.Buffer

/-- The place after a turn that ended the scan. -/
def stopAt (buffer : Buffer) (place : Nat) : Nat :=
  match buffer.findMarkup place with
  | none => place
  | some _ => buffer.bytes.length

/-- The next tag, if there is one, and the place after the call. -/
def next (buffer : Buffer) (place : Nat) : Checked (Option (Tag Char) × Nat) :=
  match _went : buffer.turn place with
  | .error fault => .error fault
  | .ok .finished => .ok (none, buffer.stopAt place)
  | .ok (.skipped after) => buffer.next after
  | .ok (.found tag after) => .ok (some tag, after)
termination_by buffer.bytes.length - place
decreasing_by
  have ahead := turn_ahead _went after rfl
  omega

/-- What the calls of a scan give, counted from 0. -/
def call (buffer : Buffer) : (number : Nat) → Checked (Option (Tag Char) × Nat)
  | 0 => buffer.next 0
  | number + 1 => do
    let (_, place) ← buffer.call number
    buffer.next place

end KeyHarvest.Buffer
