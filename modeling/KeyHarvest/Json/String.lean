import KeyHarvest.Json.Number

/-!
# Reading and writing strings

`readString` reads a string after its opening quote, with its escapes; `escape` writes one. A
character outside the basic plane may be escaped as a pair of surrogates, and a surrogate that is
not part of a pair is refused.
-/
namespace KeyHarvest.Json

/-- The space that may stand between the parts of a JSON text. -/
def isGap (c : Char) : Bool := c == ' ' || c == '\n' || c == '\t' || c == '\r'

def skipGaps (text : Text) : Text := text.dropWhile isGap

def readWord (word : Text) (text : Text) : Except Error Text :=
  match word, text with
  | [], text => .ok text
  | _ :: _, [] => .error (.before .endInValue [])
  | expected :: more, c :: rest =>
    if c = expected then readWord more rest else .error (.inside .expectedWord (c :: rest))

/-- The number that four hexadecimal digits at the start of a text stand for. -/
def fourDigits? : Text → Option (Nat × Text)
  | a :: b :: c :: d :: rest =>
    match hexadecimalDigit? a, hexadecimalDigit? b, hexadecimalDigit? c, hexadecimalDigit? d with
    | some a, some b, some c, some d => some (((a * 16 + b) * 16 + c) * 16 + d, rest)
    | _, _, _, _ => none
  | _ => none

def readHexadecimal (text : Text) : Except Error (Nat × Text) :=
  match fourDigits? text with
  | some reading => .ok reading
  | none =>
    if CodeUnit.size (text.take 4) < 4 then .error (.before .endInString [])
    else .error ⟨.invalidEscape, text, 4⟩

def isHighSurrogate (code : Nat) : Bool := 0xD800 ≤ code && code ≤ 0xDBFF

def isLowSurrogate (code : Nat) : Bool := 0xDC00 ≤ code && code ≤ 0xDFFF

/-- Reads the second half of a surrogate pair, with its `\u`. -/
def readLowSurrogate (high : Nat) : Reader Char
  | [] => .error (.before .endInString [])
  | '\\' :: rest =>
    match rest with
    | [] => .error (.before .endInString [])
    | 'u' :: rest => do
      let (low, after) ← readHexadecimal rest
      if isLowSurrogate low then
        return (Char.ofNat ((high - 0xD800) * 0x400 + (low - 0xDC00) + 0x10000), after)
      else throw (.before .unpairedSurrogate after)
    | _ => .error (.inside .unfinishedSurrogatePair rest)
  | text => .error (.inside .unfinishedSurrogatePair text)

def readCodeEscape (text : Text) : Except Error (Char × Text) := do
  let (code, rest) ← readHexadecimal text
  if isLowSurrogate code then throw (.before .unpairedSurrogate rest)
  else if isHighSurrogate code then readLowSurrogate code rest
  else return (Char.ofNat code, rest)

def letterEscape? : Char → Option Char
  | '"' => some '"'
  | '\\' => some '\\'
  | '/' => some '/'
  | 'b' => some '\x08'
  | 'f' => some '\x0c'
  | 'n' => some '\n'
  | 'r' => some '\r'
  | 't' => some '\t'
  | _ => none

def readEscape : Reader Char
  | [] => .error (.before .endInString [])
  | 'u' :: rest => readCodeEscape rest
  | c :: rest =>
    match letterEscape? c with
    | some meant => .ok (meant, rest)
    | none => .error (.inside .invalidEscape (c :: rest))

/-- A character that has to be escaped in a string. -/
def isControl (c : Char) : Bool := c.toNat < 0x20

/-! ### An escape takes at least one character -/

theorem fourDigits?_shorter {text after : Text} {code : Nat}
    (read : fourDigits? text = some (code, after)) : after.length < text.length := by
  unfold fourDigits? at read
  split at read
  · split at read
    · simp only [Option.some.injEq, Prod.mk.injEq] at read
      simp only [← read.2, List.length_cons]
      omega
    · simp at read
  · simp at read

theorem readHexadecimal_shorter {text after : Text} {code : Nat}
    (read : readHexadecimal text = .ok (code, after)) : after.length < text.length := by
  unfold readHexadecimal at read
  split at read
  next reading found =>
    simp only [Except.ok.injEq] at read
    exact fourDigits?_shorter (read ▸ found)
  next => split at read <;> simp at read

theorem readLowSurrogate_shorter {high : Nat} {text after : Text} {c : Char}
    (read : readLowSurrogate high text = .ok (c, after)) : after.length < text.length := by
  unfold readLowSurrogate at read
  split at read
  · simp at read
  · split at read
    · simp at read
    next rest =>
      cases hexadecimal : readHexadecimal rest with
      | error e => simp [hexadecimal, bind, Except.bind] at read
      | ok reading =>
        obtain ⟨low, after'⟩ := reading
        have := readHexadecimal_shorter hexadecimal
        simp only [hexadecimal, bind, Except.bind] at read
        split at read
        · simp only [pure, Except.pure, Except.ok.injEq, Prod.mk.injEq] at read
          simp only [← read.2, List.length_cons]
          omega
        · simp [throw, throwThe, MonadExceptOf.throw] at read
    · simp at read
  · simp at read

theorem readCodeEscape_shorter {text after : Text} {c : Char}
    (read : readCodeEscape text = .ok (c, after)) : after.length < text.length := by
  unfold readCodeEscape at read
  cases hexadecimal : readHexadecimal text with
  | error e => simp [hexadecimal, bind, Except.bind] at read
  | ok reading =>
    obtain ⟨code, rest⟩ := reading
    have := readHexadecimal_shorter hexadecimal
    simp only [hexadecimal, bind, Except.bind] at read
    split at read
    · simp [throw, throwThe, MonadExceptOf.throw] at read
    · split at read
      · have := readLowSurrogate_shorter read
        omega
      · simp only [pure, Except.pure, Except.ok.injEq, Prod.mk.injEq] at read
        rw [← read.2]
        omega

theorem readEscape_shorter {text after : Text} {c : Char}
    (read : readEscape text = .ok (c, after)) : after.length < text.length := by
  unfold readEscape at read
  split at read
  · simp at read
  · have := readCodeEscape_shorter read
    simp only [List.length_cons]
    omega
  · split at read
    · simp only [Except.ok.injEq, Prod.mk.injEq] at read
      simp only [← read.2, List.length_cons]
      omega
    · simp at read

/-! ### Strings -/

/-- Reads a string after its opening quote; `seen` holds the characters read so far, last first. -/
def readCharacters (seen : Text) : Reader Text
  | [] => .error (.before .endInString [])
  | '"' :: rest => .ok (seen.reverse, rest)
  | '\\' :: rest =>
    match _read : readEscape rest with
    | .error problem => .error problem
    | .ok (c, after) => readCharacters (c :: seen) after
  | c :: rest =>
    if isControl c then .error (.inside .controlCharacter (c :: rest))
    else readCharacters (c :: seen) rest
termination_by text => text.length
decreasing_by
  · have := readEscape_shorter ‹_›
    simp only [List.length_cons]
    omega
  · simp

def readString : Reader Text := readCharacters []

def escapeLetter? : Char → Option Char
  | '"' => some '"'
  | '\\' => some '\\'
  | '\x08' => some 'b'
  | '\x0c' => some 'f'
  | '\n' => some 'n'
  | '\r' => some 'r'
  | '\t' => some 't'
  | _ => none

def escapeCharacter (c : Char) : Text :=
  match escapeLetter? c with
  | some letter => ['\\', letter]
  | none =>
    if isControl c then '\\' :: 'u' :: padded 4 (hexadecimal c.toNat) else [c]

def escape (text : Text) : Text := '"' :: (text.flatMap escapeCharacter ++ ['"'])

end KeyHarvest.Json
