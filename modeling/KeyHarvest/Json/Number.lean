import KeyHarvest.Json.Error

/-!
# Reading numbers

The digits of a number are taken up as long as they fit 64 bits; further digits before the point
only count as a power of ten, and further digits after it are dropped. A number with a point, an
exponent or too many digits becomes a double: its significand times or over a power of ten, each
rounded on its own, in steps of at most `10 ^ 308`.
-/
namespace KeyHarvest.Json

/-- A reader gives a value and the text after it. -/
abbrev Reader (α : Type) := Text → Except Error (α × Text)

def startsWithDigit : Text → Bool
  | c :: _ => isDecimalDigit c
  | [] => false

/-- Takes up digits while the number stays within a limit. Gives the number, how many digits were
taken up and the text after them. -/
def takeDigits (limit number count : Nat) : Text → Nat × Nat × Text
  | [] => (number, count, [])
  | c :: rest =>
    match decimalDigit? c with
    | some digit =>
      if number * 10 + digit ≤ limit then takeDigits limit (number * 10 + digit) (count + 1) rest
      else (number, count, c :: rest)
    | none => (number, count, c :: rest)

def greatestNatural : Nat := 0xFFFFFFFFFFFFFFFF

def greatestNegative : Nat := 0x8000000000000000

def exponentLimit : Nat := 0x7FFFFFFF

def greatestPower : Nat := 308

/-- A double times `10 ^ exponent`, or nothing beyond the range of doubles. A double that has become
zero after some steps downward stays zero. -/
def scaleByTen (x : Double) (exponent : Int) : Option Double :=
  go 4 x exponent
where
  go : Nat → Double → Int → Option Double
    | 0, x, _ => some (.zero x.negative)
    | steps + 1, x, exponent =>
      if exponent.natAbs ≤ greatestPower then
        (Double.powerOfTen? exponent.natAbs).bind fun power =>
          if 0 ≤ exponent then x.mul? power else x.div? power
      else if x.significand = 0 then some x
      else if 0 ≤ exponent then none
      else
        (Double.powerOfTen? greatestPower).bind fun power =>
          (x.div? power).bind fun x => go steps x (exponent + greatestPower)

/-- The double of a significand and a power of ten; the number ends before `rest`. -/
def finishDouble (negative : Bool) (significand : Nat) (exponent : Int) (rest : Text) :
    Except Error (Double × Text) :=
  match (Double.ofRatio? negative significand 1).bind (scaleByTen · exponent) with
  | some x => .ok (x, rest)
  | none => .error (.before .numberOutOfRange rest)

def readExponent (negative : Bool) (significand : Nat) (exponent : Int) (text : Text) :
    Except Error (Double × Text) :=
  let (downward, rest) : Bool × Text := match text with
    | '+' :: rest => (false, rest)
    | '-' :: rest => (true, rest)
    | rest => (false, rest)
  match rest with
  | [] => .error (.before .endInValue [])
  | c :: more =>
    match decimalDigit? c with
    | none => .error (.inside .invalidNumber (c :: more))
    | some digit =>
      let (written, _, after) := takeDigits exponentLimit digit 1 more
      if startsWithDigit after then
        if significand ≠ 0 ∧ !downward then .error (.inside .numberOutOfRange after)
        else .ok (.zero negative, after.dropWhile isDecimalDigit)
      else
        finishDouble negative significand
          (if downward then exponent - written else exponent + written) after

def readScale (negative : Bool) (significand : Nat) (exponent : Int) (text : Text) :
    Except Error (Double × Text) :=
  match text with
  | 'e' :: rest => readExponent negative significand exponent rest
  | 'E' :: rest => readExponent negative significand exponent rest
  | _ => finishDouble negative significand exponent text

def readFraction (negative : Bool) (significand : Nat) (exponent : Int) (text : Text) :
    Except Error (Double × Text) :=
  let (significand, count, rest) := takeDigits greatestNatural significand 0 text
  if startsWithDigit rest then
    readScale negative significand (exponent - count) (rest.dropWhile isDecimalDigit)
  else if count = 0 then
    match rest with
    | [] => .error (.before .endInValue [])
    | _ => .error (.inside .invalidNumber rest)
  else readScale negative significand (exponent - count) rest

def asNumber (read : Except Error (Double × Text)) : Except Error (Number × Text) :=
  read.map fun (x, rest) => (.double x, rest)

/-- Reads what follows the digits of a number before the point. Minus zero and what is beyond the
negative integers are doubles. -/
def readRemainder (negative : Bool) (significand : Nat) (text : Text) :
    Except Error (Number × Text) :=
  match text with
  | '.' :: rest => asNumber (readFraction negative significand 0 rest)
  | 'e' :: rest => asNumber (readExponent negative significand 0 rest)
  | 'E' :: rest => asNumber (readExponent negative significand 0 rest)
  | _ =>
    if !negative then .ok (.natural significand, text)
    else if significand ≠ 0 ∧ significand ≤ greatestNegative then
      .ok (.negative significand, text)
    else asNumber (finishDouble true significand 0 text)

def readNumber (negative : Bool) : Reader Number
  | [] => .error (.before .endInValue [])
  | '0' :: rest =>
    if startsWithDigit rest then .error (.inside .invalidNumber rest)
    else readRemainder negative 0 rest
  | c :: rest =>
    match decimalDigit? c with
    | none => .error (.inside .invalidNumber (c :: rest))
    | some digit =>
      let (significand, _, after) := takeDigits greatestNatural digit 1 rest
      if startsWithDigit after then
        let exponent := (after.takeWhile isDecimalDigit).length
        let after := after.dropWhile isDecimalDigit
        asNumber (match after with
          | '.' :: rest => readFraction negative significand exponent rest
          | _ => readScale negative significand exponent after)
      else readRemainder negative significand after

end KeyHarvest.Json
