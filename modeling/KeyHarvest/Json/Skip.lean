import KeyHarvest.Json.Reader

/-!
# Passing over values

The value of a member that nobody asked for is passed over. Its brackets have to match and its
parts have to be well written, but it may be nested to any depth, its numbers may have any size and
its surrogates need no partner. Open brackets are held in a stack; the fuel bounds the steps, and
no step leaves more text than it found.
-/
namespace KeyHarvest.Json

def skipEscape (text : Text) : Except Error Text :=
  match text with
  | [] => .error (.before .endInString [])
  | 'u' :: rest => (readHexadecimal rest).map (·.2)
  | c :: rest =>
    if (letterEscape? c).isSome then .ok rest else .error (.inside .invalidEscape (c :: rest))

theorem skipEscape_shorter {text after : Text} (skipped : skipEscape text = .ok after) :
    after.length < text.length := by
  unfold skipEscape at skipped
  split at skipped
  · simp at skipped
  next rest =>
    cases read : readHexadecimal rest with
    | error problem => simp [read, Except.map] at skipped
    | ok reading =>
      obtain ⟨code, after'⟩ := reading
      have := readHexadecimal_shorter read
      simp only [read, Except.map, Except.ok.injEq] at skipped
      simp only [List.length_cons, ← skipped]
      omega
  · split at skipped
    · simp only [Except.ok.injEq] at skipped
      simp only [List.length_cons, ← skipped]
      omega
    · simp at skipped

def skipString (text : Text) : Except Error Text :=
  match text with
  | [] => .error (.before .endInString [])
  | '"' :: rest => .ok rest
  | '\\' :: rest =>
    match _skipped : skipEscape rest with
    | .error problem => .error problem
    | .ok after => skipString after
  | c :: rest =>
    if isControl c then .error (.before .controlCharacter (c :: rest)) else skipString rest
termination_by text.length
decreasing_by
  · have := skipEscape_shorter ‹_›
    simp only [List.length_cons]
    omega
  · simp

def skipDigits (text : Text) : Except Error Text :=
  if startsWithDigit text then .ok (text.dropWhile isDecimalDigit)
  else .error (.inside .invalidNumber text)

def skipScale (text : Text) : Except Error Text :=
  let skipExponent (rest : Text) : Except Error Text :=
    match rest with
    | '+' :: rest => skipDigits rest
    | '-' :: rest => skipDigits rest
    | rest => skipDigits rest
  match text with
  | 'e' :: rest => skipExponent rest
  | 'E' :: rest => skipExponent rest
  | _ => .ok text

def skipNumber (text : Text) : Except Error Text := do
  let rest ← match text with
    | '0' :: rest =>
      if startsWithDigit rest then throw (.inside .invalidNumber rest) else pure rest
    | _ => skipDigits text
  match rest with
  | '.' :: rest => skipScale (← skipDigits rest)
  | _ => skipScale rest

inductive Bracket where
  | list
  | object
deriving DecidableEq, Repr

/-- What comes next while a value is passed over. -/
inductive Stage where
  | value
  /-- The first item or the end, after an opening bracket. -/
  | opened
  /-- A comma or an end, after a value. -/
  | completed
deriving DecidableEq, Repr

def Bracket.endCause : Bracket → Cause
  | .list => .endInList
  | .object => .endInObject

def Bracket.expectedCause : Bracket → Cause
  | .list => .expectedListEnd
  | .object => .expectedObjectEnd

def Bracket.closing : Bracket → Char
  | .list => ']'
  | .object => '\x7d'

/-- Passes over what stands before a value inside a bracket: for an object, a name and a colon. -/
def skipName (bracket : Bracket) (text : Text) : Except Error Text :=
  match bracket with
  | .list => .ok text
  | .object =>
    match skipGaps text with
    | [] => .error (.before .endInObject [])
    | '"' :: rest => do readColon (← skipString rest)
    | c :: rest => .error (.inside .expectedName (c :: rest))

/-- Passes over a value with open brackets around it, innermost first. -/
def skipNested : Nat → List Bracket → Stage → Text → Except Error Text
  | 0, _, _, text => .error (.before .endInValue text)
  | fuel + 1, brackets, .value, text =>
    match skipGaps text with
    | [] => .error (.before .endInValue [])
    | 'n' :: rest => do skipNested fuel brackets .completed (← readWord "ull".toList rest)
    | 't' :: rest => do skipNested fuel brackets .completed (← readWord "rue".toList rest)
    | 'f' :: rest => do skipNested fuel brackets .completed (← readWord "alse".toList rest)
    | '-' :: rest => do skipNested fuel brackets .completed (← skipNumber rest)
    | '"' :: rest => do skipNested fuel brackets .completed (← skipString rest)
    | '[' :: rest => skipNested fuel (.list :: brackets) .opened rest
    | '\x7b' :: rest => skipNested fuel (.object :: brackets) .opened rest
    | c :: rest =>
      if isDecimalDigit c then do
        skipNested fuel brackets .completed (← skipNumber (c :: rest))
      else .error (.inside .expectedValue (c :: rest))
  | _ + 1, [], _, text => .ok text
  | fuel + 1, bracket :: outer, stage, text =>
    match skipGaps text with
    | [] => .error (.before bracket.endCause [])
    | c :: rest =>
      if c = ',' ∧ stage = .completed then do
        skipNested fuel (bracket :: outer) .value (← skipName bracket rest)
      else if c = bracket.closing then skipNested fuel outer .completed rest
      else if stage = .completed then .error (.inside bracket.expectedCause (c :: rest))
      else do skipNested fuel (bracket :: outer) .value (← skipName bracket (c :: rest))

def skipValue (text : Text) : Except Error Text :=
  skipNested (2 * text.length + 2) [] .value text

end KeyHarvest.Json
