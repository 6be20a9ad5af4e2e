import KeyHarvest.Text.Digits

/-!
# Binary floating-point numbers, exactly

A finite double is a sign, a natural significand below 2^53 and an exponent of two; everything is
computed in natural numbers. `Double.ofRatio?` rounds a quotient to the nearest double, ties to
even. `Double.shortest` finds the fewest decimal digits that read back as the same double, and of
these the nearest ones; `Double.text` writes them.
-/
namespace KeyHarvest

/-- The finite double `significand * 2 ^ exponent`, with its sign. -/
structure Double where
  negative : Bool
  significand : Nat
  exponent : Int
deriving DecidableEq, Repr

namespace Double

def leastExponent : Int := -1074

def greatestExponent : Int := 971

/-- The least significand that uses all 53 bits; below it are the subnormal numbers. -/
def leastNormal : Nat := 0x10000000000000

def zero (negative : Bool) : Double := ⟨negative, 0, leastExponent⟩

/-- `numerator / denominator * 2 ^ (-exponent)` as a quotient. -/
def scaleBinary (numerator denominator : Nat) (exponent : Int) : Nat × Nat :=
  if 0 ≤ exponent then (numerator, denominator * Nat.pow 2 exponent.toNat)
  else (numerator * Nat.pow 2 (-exponent).toNat, denominator)

/-- The natural number nearest to a quotient; a tie goes to the even one. -/
def roundEven (numerator denominator : Nat) : Nat :=
  let whole := numerator / denominator
  let twice := 2 * (numerator % denominator)
  if twice < denominator then whole
  else if denominator < twice then whole + 1
  else if whole % 2 = 0 then whole else whole + 1

/-- The double nearest to a quotient with a positive denominator, or nothing beyond the range. -/
def ofRatio? (negative : Bool) (numerator denominator : Nat) : Option Double :=
  if numerator = 0 then some (zero negative)
  else
    let guess : Int := (numerator.log2 : Int) - denominator.log2 - 52
    let (top, bottom) := scaleBinary numerator denominator guess
    let exponent := max leastExponent (if top < bottom * leastNormal then guess - 1 else guess)
    let (top, bottom) := scaleBinary numerator denominator exponent
    let rounded := roundEven top bottom
    let (significand, exponent) :=
      if rounded = 2 * leastNormal then (leastNormal, exponent + 1) else (rounded, exponent)
    if exponent ≤ greatestExponent then some ⟨negative, significand, exponent⟩ else none

def ratio (x : Double) : Nat × Nat :=
  if 0 ≤ x.exponent then (x.significand * Nat.pow 2 x.exponent.toNat, 1)
  else (x.significand, Nat.pow 2 (-x.exponent).toNat)

/-- The product of the magnitude with a power of ten whose own double is `power`, rounded. -/
def mul? (x power : Double) : Option Double :=
  ofRatio? x.negative (x.ratio.1 * power.ratio.1) (x.ratio.2 * power.ratio.2)

def div? (x power : Double) : Option Double :=
  ofRatio? x.negative (x.ratio.1 * power.ratio.2) (x.ratio.2 * power.ratio.1)

def powerOfTen? (exponent : Nat) : Option Double := ofRatio? false (Nat.pow 10 exponent) 1

/-- `numerator / denominator * 10 ^ (-exponent)` as a quotient. -/
def scaleDecimal (numerator denominator : Nat) (exponent : Int) : Nat × Nat :=
  if 0 ≤ exponent then (numerator, denominator * Nat.pow 10 exponent.toNat)
  else (numerator * Nat.pow 10 (-exponent).toNat, denominator)

/-- The exponent of the leading decimal digit of a positive quotient. -/
def leadingExponent (numerator denominator : Nat) : Int :=
  if denominator ≤ numerator then ((decimal (numerator / denominator)).length : Int) - 1
  else -((go 400 1 : Nat) : Int)
where
  /-- The number of places that the quotient has to move up to reach one. -/
  go : Nat → Nat → Nat
    | 0, places => places
    | fuel + 1, places =>
      if denominator ≤ numerator * Nat.pow 10 places then places else go fuel (places + 1)

/-- The decimal of `count` digits nearest to the double among those that read back as it: its
digits as a number, and the exponent of their last place. -/
def decimalOf? (x : Double) (count : Nat) : Option (Nat × Int) :=
  let (numerator, denominator) := x.ratio
  let place := leadingExponent numerator denominator - (count : Int) + 1
  let (top, bottom) := scaleDecimal numerator denominator place
  let below := top / bottom
  -- In units of `1 / (4 * bottom)`: the reals that round to `x` reach half a significand unit up,
  -- and half a unit down, or a quarter where the binary exponent changes.
  let unit := top / x.significand
  let lower := 4 * top -
    (if x.significand = leastNormal ∧ x.exponent ≠ leastExponent then unit else 2 * unit)
  let upper := 4 * top + 2 * unit
  let within := fun candidate : Nat =>
    let place := 4 * bottom * candidate
    (lower < place && place < upper) ||
      (x.significand % 2 == 0 && (place == lower || place == upper))
  let carried := fun candidate : Nat =>
    if candidate = Nat.pow 10 count then (Nat.pow 10 (count - 1), place + 1) else (candidate, place)
  match within below, within (below + 1) with
  | true, true => some (carried (roundEven top bottom))
  | true, false => some (below, place)
  | false, true => some (carried (below + 1))
  | false, false => none

/-- The fewest digits that read back as a double other than zero, with the exponent of the last
place. Seventeen always suffice. -/
def shortest (x : Double) : Nat × Int :=
  ((List.range' 1 17).findSome? x.decimalOf?).getD (0, 0)

/-- The text of a double. The notation is positional while the leading digit stands between the
fifth place after the point and the sixteenth before it, and has a digit on both sides of the point;
beyond, it is scientific with a signed exponent of two digits at least. -/
def text (x : Double) : Text :=
  (if x.negative then ['-'] else []) ++
    if x.significand = 0 then "0.0".toList
    else
      let (number, place) := x.shortest
      let numeral := decimal number
      let count := numeral.length
      let leading := place + count - 1
      if -5 ≤ leading ∧ leading ≤ 15 then
        if 0 ≤ place then numeral ++ List.replicate place.toNat '0' ++ ".0".toList
        else if 0 ≤ leading then
          numeral.take (leading.toNat + 1) ++ '.' :: numeral.drop (leading.toNat + 1)
        else "0.".toList ++ List.replicate (-leading - 1).toNat '0' ++ numeral
      else
        numeral.take 1 ++ (if count = 1 then [] else '.' :: numeral.drop 1) ++
          'e' :: (if 0 ≤ leading then '+' else '-') :: padded 2 (decimal leading.natAbs)

end Double
end KeyHarvest
