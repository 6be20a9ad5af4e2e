import KeyHarvest.Number.Double

/-!
# JSON documents

A number keeps the three ranges apart in which it can be held: natural numbers below 2^64, negative
integers from -2^63 on, and doubles for all else. An object keeps its members as they were written,
repeated names included; of these the last one counts.
-/
namespace KeyHarvest.Json

inductive Number where
  | natural (value : Nat)
  /-- The integer `-magnitude`. -/
  | negative (magnitude : Nat)
  | double (value : Double)
deriving DecidableEq, Repr

def Number.text : Number → Text
  | .natural value => decimal value
  | .negative magnitude => '-' :: decimal magnitude
  | .double value => value.text

inductive Value where
  | null
  | bool (value : Bool)
  | number (value : Number)
  | string (value : Text)
  | array (items : List Value)
  | object (members : List (Text × Value))
deriving Repr

/-- The value of the last member of a name. -/
def member? (members : List (Text × Value)) (name : Text) : Option Value :=
  (members.reverse.find? (·.1 = name)).map (·.2)

end KeyHarvest.Json
