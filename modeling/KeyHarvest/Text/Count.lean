import KeyHarvest.Text.Digits

/-!
# Counted nouns

`1 file`, `2 files`: the singular goes with one, the plural with every other number.
-/
namespace KeyHarvest

/-- A number with the form of the noun that goes with it. -/
def counted (number : Nat) (singular plural : Text) : Text :=
  decimal number ++ ' ' :: (if number = 1 then singular else plural)

end KeyHarvest
