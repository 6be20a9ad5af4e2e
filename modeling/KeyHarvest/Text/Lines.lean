import KeyHarvest.Text.Utf8

/-!
# Line numbers

The offsets at which the lines of a text start, and the line of an offset by binary search among
them. Lines are counted from one and end after a line feed.
-/
namespace KeyHarvest
open CodeUnit

variable {α : Type} [CodeUnit α]

/-- The offsets at which the lines of a text start. -/
def lineStarts (text : List α) : Array Nat :=
  go #[0] 0 text
where
  go (starts : Array Nat) (offset : Nat) : List α → Array Nat
    | [] => starts
    | a :: rest =>
      let offset := offset + width a
      go (if is '\n' a then starts.push offset else starts) offset rest

/-- Searches ascending entries for a value, between the places `low` and `high`: the place where it
stands, or else the place where it would have to be put in. -/
def binarySearch (entries : Array Nat) (value low high : Nat) : Except Nat Nat :=
  if _more : low < high then
    let middle := (low + high) / 2
    match compare (entries.getD middle 0) value with
    | .lt => binarySearch entries value (middle + 1) high
    | .eq => .ok middle
    | .gt => binarySearch entries value low middle
  else .error low
termination_by high - low

/-- The line of an offset, given where the lines start in ascending order. An offset that is the
start of a line is on that line, any other one is on the line that starts last before it. -/
def lineAt (starts : Array Nat) (offset : Nat) : Nat :=
  match binarySearch starts offset 0 starts.size with
  | .ok place => place + 1
  | .error place => place

/-- The line of an offset, counted out: one more than the line feeds before it. -/
def countLines (text : List α) (offset : Nat) : Nat :=
  1 + go 0 0 text
where
  go (feeds position : Nat) : List α → Nat
    | [] => feeds
    | a :: rest =>
      if position < offset then go (if is '\n' a then feeds + 1 else feeds) (position + width a) rest
      else feeds

/-- The line of an offset among the bytes: one more than the line feeds before it. -/
def lineOf (text : Text) (offset : Nat) : Nat := 1 + ((encode text).take offset).count 10

end KeyHarvest
