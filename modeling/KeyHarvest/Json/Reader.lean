import KeyHarvest.Json.String

/-!
# Reading JSON

`readItems` and `readMembers` read the contents of a list and of an object with any reader for
what is inside; their fuel bounds the number of items, and a text has no more items than characters.
`readValue` reads a value of any type, nested up to a given depth, and `parse` a whole text.
-/
namespace KeyHarvest.Json

variable {α σ : Type}

/-! ### Lists -/

/-- Reads the next item of a list, or nothing where its closing bracket stands next. -/
def nextItem? (item : Reader α) (first : Bool) : Reader (Option α) := fun text =>
  match skipGaps text with
  | [] => .error (.before .endInList [])
  | ']' :: rest => .ok (none, ']' :: rest)
  | c :: rest =>
    if first then (item (c :: rest)).map fun (read, after) => (some read, after)
    else if c = ',' then
      match skipGaps rest with
      | [] => .error (.before .endInValue [])
      | ']' :: rest => .error (.inside .trailingComma (']' :: rest))
      | next => (item next).map fun (read, after) => (some read, after)
    else .error (.inside .expectedListEnd (c :: rest))

def readItemsFrom (item : Reader α) : (fuel : Nat) → (first : Bool) → Reader (List α)
  | 0, _, text => .error (.before .endInList text)
  | fuel + 1, first, text =>
    match nextItem? item first text with
    | .error problem => .error problem
    | .ok (none, rest) => .ok ([], rest.drop 1)
    | .ok (some read, rest) =>
      (readItemsFrom item fuel false rest).map fun (others, rest) => (read :: others, rest)

def readItems (item : Reader α) : Reader (List α) := fun text =>
  readItemsFrom item (text.length + 1) true text

/-- Ends a list of which no more items are read. -/
def readListEnd (text : Text) : Except Error Text :=
  match skipGaps text with
  | [] => .error (.before .endInList [])
  | ']' :: rest => .ok rest
  | ',' :: rest =>
    match skipGaps rest with
    | ']' :: rest => .error (.inside .trailingComma (']' :: rest))
    | rest => .error (.inside .trailingCharacters rest)
  | c :: rest => .error (.inside .trailingCharacters (c :: rest))

/-! ### Objects -/

/-- Reads the name of the next member, or nothing where the closing brace stands next. -/
def nextName? (first : Bool) : Reader (Option Text) := fun text =>
  let name (rest : Text) := (readString rest).map fun (read, after) => (some read, after)
  match skipGaps text with
  | [] => .error (.before .endInObject [])
  | '\x7d' :: rest => .ok (none, '\x7d' :: rest)
  | c :: rest =>
    if first then
      if c = '"' then name rest else .error (.inside .expectedName (c :: rest))
    else if c = ',' then
      match skipGaps rest with
      | [] => .error (.before .endInValue [])
      | '"' :: rest => name rest
      | '\x7d' :: rest => .error (.inside .trailingComma ('\x7d' :: rest))
      | c :: rest => .error (.inside .expectedName (c :: rest))
    else .error (.inside .expectedObjectEnd (c :: rest))

/-- Reads what follows the name of a member, given what was read of the object before. -/
abbrev MemberReader (σ : Type) := Text → σ → Reader σ

def readMembersFrom (member : MemberReader σ) : (fuel : Nat) → (first : Bool) → σ → Reader σ
  | 0, _, _, text => .error (.before .endInObject text)
  | fuel + 1, first, before, text =>
    match nextName? first text with
    | .error problem => .error problem
    | .ok (none, rest) => .ok (before, rest.drop 1)
    | .ok (some name, rest) =>
      match member name before rest with
      | .error problem => .error problem
      | .ok (after, rest) => readMembersFrom member fuel false after rest

def readMembers (member : MemberReader σ) (start : σ) : Reader σ := fun text =>
  readMembersFrom member (text.length + 1) true start text

def readColon (text : Text) : Except Error Text :=
  match skipGaps text with
  | [] => .error (.before .endInObject [])
  | ':' :: rest => .ok rest
  | c :: rest => .error (.inside .expectedColon (c :: rest))

/-! ### Values of any type -/

/-- Keeps every member; the members read so far are in reverse. -/
def keepMember (value : Reader Value) : MemberReader (List (Text × Value)) :=
  fun name before text => do
    let rest ← readColon text
    let (read, rest) ← value rest
    return ((name, read) :: before, rest)

/-- Reads a value in which lists and objects are nested less deep than `depth`. -/
def readValue : (depth : Nat) → Reader Value
  | 0, text => .error (.inside .tooDeep text)
  | depth + 1, text =>
    match skipGaps text with
    | [] => .error (.before .endInValue [])
    | 'n' :: rest => do return (.null, ← readWord "ull".toList rest)
    | 't' :: rest => do return (.bool true, ← readWord "rue".toList rest)
    | 'f' :: rest => do return (.bool false, ← readWord "alse".toList rest)
    | '-' :: rest => do
      let (number, rest) ← readNumber true rest
      return (.number number, rest)
    | '"' :: rest => do
      let (read, rest) ← readString rest
      return (.string read, rest)
    | '[' :: rest =>
      if depth = 0 then .error (.inside .tooDeep ('[' :: rest))
      else do
        let (items, rest) ← readItems (readValue depth) rest
        return (.array items, rest)
    | '\x7b' :: rest =>
      if depth = 0 then .error (.inside .tooDeep ('\x7b' :: rest))
      else do
        let (members, rest) ← readMembers (keepMember (readValue depth)) [] rest
        return (.object members.reverse, rest)
    | c :: rest =>
      if isDecimalDigit c then do
        let (number, rest) ← readNumber false (c :: rest)
        return (.number number, rest)
      else .error (.inside .expectedValue (c :: rest))

def depthLimit : Nat := 128

def readWhole (reader : Reader α) (text : Text) : Except Error α := do
  let (read, rest) ← reader text
  match skipGaps rest with
  | [] => return read
  | c :: rest => throw (.inside .trailingCharacters (c :: rest))

def parse (text : Text) : Except Error Value := readWhole (readValue depthLimit) text

/-! ### Values of a given type -/

/-- The error for a value that is not of the expected type. A list or an object is not read. -/
def wrongType (expected text : Text) : Error :=
  let found (found : Found) (rest : Except Error Text) : Error :=
    match rest with
    | .ok rest => .before (.wrongType found expected) rest
    | .error problem => problem
  let number (read : Except Error (Number × Text)) : Error :=
    match read with
    | .ok (value, rest) => .before (.wrongType (.number value) expected) rest
    | .error problem => problem
  match text with
  | 'n' :: rest => found .null (readWord "ull".toList rest)
  | 't' :: rest => found (.bool true) (readWord "rue".toList rest)
  | 'f' :: rest => found (.bool false) (readWord "alse".toList rest)
  | '-' :: rest => number (readNumber true rest)
  | '"' :: rest =>
    match readString rest with
    | .ok (value, rest) => .before (.wrongType (.string value) expected) rest
    | .error problem => problem
  | '[' :: _ => .before (.wrongType .array expected) text
  | '\x7b' :: _ => .before (.wrongType .object expected) text
  | _ =>
    if startsWithDigit text then number (readNumber false text) else .inside .expectedValue text

def readText : Reader Text := fun text =>
  match skipGaps text with
  | [] => .error (.before .endInValue [])
  | '"' :: rest => readString rest
  | next => .error (wrongType "a string".toList next)

def readText? : Reader (Option Text) := fun text =>
  match skipGaps text with
  | 'n' :: rest => do return (none, ← readWord "ull".toList rest)
  | next => do
    let (read, rest) ← readText next
    return (some read, rest)

/-- A list whose items are all read by the same reader. -/
def readList (item : Reader α) : Reader (List α) := fun text =>
  match skipGaps text with
  | [] => .error (.before .endInValue [])
  | '[' :: rest => readItems item rest
  | next => .error (wrongType "a sequence".toList next)

def readTexts : Reader (List Text) := readList readText

/-! ### Records of fields -/

/-- What is left after the end of an object, if it ends here. An error that concerns the object as
a whole has its place there. -/
def afterObject (text : Text) : Text :=
  match skipGaps text with
  | '\x7d' :: rest => rest
  | rest => rest

/-- Reads the value of a field after its name; a field that was read before is refused. -/
def readField (name : Text) (before : Option α) (value : Reader α) : Reader (Option α) :=
  fun text =>
    if before.isSome then .error (.before (.repeatedField name) (afterObject text))
    else do
      let (read, rest) ← value (← readColon text)
      return (some read, rest)

end KeyHarvest.Json
