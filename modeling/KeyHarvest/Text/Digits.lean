import KeyHarvest.Text.CodeUnit

/-!
# Numerals

The digits of natural numbers, written in any base up to sixteen with lower-case letters, and the
value of a digit that is read.
-/
namespace KeyHarvest

/-- The numeral of a number, without leading zeros. -/
def digits (base number : Nat) : Text := Nat.toDigits base number

/-- The decimal numeral of a number. -/
def decimal (number : Nat) : Text := digits 10 number

/-- The hexadecimal numeral of a number. -/
def hexadecimal (number : Nat) : Text := digits 16 number

/-- A numeral with zeros in front of it up to a width. -/
def padded (width : Nat) (numeral : Text) : Text :=
  List.replicate (width - numeral.length) '0' ++ numeral

/-- The value of a decimal digit. -/
def decimalDigit? (c : Char) : Option Nat :=
  if '0' ≤ c ∧ c ≤ '9' then some (c.toNat - '0'.toNat) else none

/-- The value of a hexadecimal digit of either case. -/
def hexadecimalDigit? (c : Char) : Option Nat :=
  if '0' ≤ c ∧ c ≤ '9' then some (c.toNat - '0'.toNat)
  else if 'a' ≤ c ∧ c ≤ 'f' then some (c.toNat - 'a'.toNat + 10)
  else if 'A' ≤ c ∧ c ≤ 'F' then some (c.toNat - 'A'.toNat + 10)
  else none

def isDecimalDigit (c : Char) : Bool := (decimalDigit? c).isSome

end KeyHarvest
