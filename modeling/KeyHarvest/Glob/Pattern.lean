import KeyHarvest.Text.Digits
import KeyHarvest.Text.Split

/-!
# Glob patterns

`?` stands for one character, `*` for any run, `[abc]`, `[a-z]` and `[!a]` for one character of a
class, and `**`, which has to be a whole path component, for any number of directories. Matching is
over the whole text of a path, and `?`, `*` and classes match the separator `/` like any other
character.
-/
namespace KeyHarvest.Glob

inductive ClassEntry where
  | single (c : Char)
  | range (first last : Char)
deriving DecidableEq, Repr

inductive Token where
  | literal (c : Char)
  | anyCharacter
  | anyRun
  /-- `**`, together with the separator after it. -/
  | anyDirectories
  | inClass (entries : List ClassEntry)
  | notInClass (entries : List ClassEntry)
deriving DecidableEq, Repr

inductive Fault where
  | tooManyStars
  | partialDirectories
  | invalidRange
deriving DecidableEq, Repr

structure PatternError where
  /-- The number of characters before the place of the fault. -/
  place : Nat
  fault : Fault
deriving DecidableEq, Repr

def Fault.message : Fault → Text
  | .tooManyStars => "wildcards are either regular `*` or recursive `**`".toList
  | .partialDirectories => "recursive wildcards must form a single path component".toList
  | .invalidRange => "invalid range pattern".toList

def PatternError.message (error : PatternError) : Text :=
  "Pattern syntax error near position ".toList ++ decimal error.place ++ ": ".toList ++
    error.fault.message

/-- A pattern has a wildcard if it holds `*` or `?`; classes alone do not count. -/
def hasWildcard (pattern : Text) : Bool := pattern.any fun c => c == '*' || c == '?'

/-! ### Reading patterns -/

def classEntries : Text → List ClassEntry
  | first :: '-' :: last :: rest => .range first last :: classEntries rest
  | c :: rest => .single c :: classEntries rest
  | [] => []

/-- Reads a class after its opening bracket. The first character of a class is never its end. -/
def readClass? : Text → Option (Token × Text)
  | '!' :: first :: rest =>
    (splitAt? (· == ']') rest).map fun (others, after) =>
      (.notInClass (classEntries (first :: others)), after)
  | '!' :: [] => none
  | first :: rest =>
    (splitAt? (· == ']') rest).map fun (others, after) =>
      (.inClass (classEntries (first :: others)), after)
  | [] => none

/-- Adds a `**` to the tokens read so far, last first; several in a row count as one, unless the
only token before is one. -/
def addDirectories : List Token → List Token
  | .anyDirectories :: before :: rest => .anyDirectories :: before :: rest
  | seen => .anyDirectories :: seen

theorem readClass?_shorter {text after : Text} {token : Token}
    (read : readClass? text = some (token, after)) : after.length < text.length := by
  unfold readClass? at read
  split at read
  · obtain ⟨⟨others, after'⟩, cut, equal⟩ := Option.map_eq_some_iff.mp read
    have := splitAt?_shorter cut
    simp only [Prod.mk.injEq] at equal
    simp only [← equal.2, List.length_cons]
    omega
  · simp at read
  · obtain ⟨⟨others, after'⟩, cut, equal⟩ := Option.map_eq_some_iff.mp read
    have := splitAt?_shorter cut
    simp only [Prod.mk.injEq] at equal
    simp only [← equal.2, List.length_cons]
    omega
  · simp at read

/-- Reads a pattern from a place on; `startsComponent` says whether a path component starts there,
and `seen` holds the tokens before, last first. -/
def readTokens (place : Nat) (startsComponent : Bool) (seen : List Token) (text : Text) :
    Except PatternError (List Token) :=
  match text with
  | [] => .ok seen.reverse
  | '?' :: rest => readTokens (place + 1) false (.anyCharacter :: seen) rest
  | '*' :: '*' :: '*' :: _ => .error ⟨place + 2, .tooManyStars⟩
  | '*' :: '*' :: rest =>
    if startsComponent then
      match rest with
      | [] => .ok (addDirectories seen).reverse
      | '/' :: rest => readTokens (place + 3) true (addDirectories seen) rest
      | _ => .error ⟨place + 2, .partialDirectories⟩
    else .error ⟨place - 1, .partialDirectories⟩
  | '*' :: rest => readTokens (place + 1) false (.anyRun :: seen) rest
  | '[' :: rest =>
    match _class : readClass? rest with
    | some (token, after) =>
      readTokens (place + 1 + (rest.length - after.length)) false (token :: seen) after
    | none => .error ⟨place, .invalidRange⟩
  | c :: rest => readTokens (place + 1) (c == '/') (.literal c :: seen) rest
termination_by text.length
decreasing_by
  · simp
  · simp
    omega
  · simp
  · have := readClass?_shorter ‹_›
    simp only [List.length_cons]
    omega
  · simp

def readPattern (text : Text) : Except PatternError (List Token) := readTokens 0 true [] text

/-! ### Matching -/

def ClassEntry.holds (c : Char) : ClassEntry → Bool
  | .single d => c == d
  | .range first last => first ≤ c && c ≤ last

def Token.matchesCharacter (c : Char) : Token → Bool
  | .literal d => c == d
  | .anyCharacter => true
  | .inClass entries => entries.any (·.holds c)
  | .notInClass entries => !entries.any (·.holds c)
  | .anyRun => false
  | .anyDirectories => false

/-- All texts that are left when characters are taken from the front, none to all. -/
def remainders : Text → List Text
  | [] => [[]]
  | c :: rest => (c :: rest) :: remainders rest

/-- The texts that are left when whole directories are taken from the front, or everything. -/
def directoryRemainders (text : Text) : List Text :=
  text :: go text
where
  go : Text → List Text
    | [] => [[]]
    | c :: rest => if c = '/' then rest :: go rest else go rest

inductive Fit where
  /-- They match the whole text. -/
  | whole
  /-- A character does not match, or some are left over. -/
  | mismatch
  /-- The text ends before the tokens do. -/
  | tooShort
deriving DecidableEq, Repr

/-- The first fit among texts that get shorter and shorter. Once a text is too short, so are all
that come after it. -/
def firstFit (fit : Text → Fit) : List Text → Fit
  | [] => .mismatch
  | text :: shorter =>
    match fit text with
    | .mismatch => firstFit fit shorter
    | settled => settled

def fitTokens : List Token → Text → Fit
  | [], text => if text.isEmpty then .whole else .mismatch
  | .anyRun :: tokens, text => firstFit (fitTokens tokens) (remainders text)
  | .anyDirectories :: tokens, text => firstFit (fitTokens tokens) (directoryRemainders text)
  | token :: tokens, text =>
    match text with
    | [] => .tooShort
    | c :: rest => if token.matchesCharacter c then fitTokens tokens rest else .mismatch

def matchTokens (tokens : List Token) (text : Text) : Bool := fitTokens tokens text = .whole

end KeyHarvest.Glob
