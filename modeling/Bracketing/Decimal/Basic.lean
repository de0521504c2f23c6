import Bracketing.Double.Nearest

namespace Bracketing

/-- The number `digits / 10 ^ places`. -/
structure Decimal where
  digits : Nat
  places : Nat
  deriving DecidableEq

namespace Decimal

attribute [local instance (2000)] instPowNat

def nearest (d : Decimal) : Nat :=
  Double.nearest (d.digits * 2 ^ Double.unitExponent) (10 ^ d.places)

def chars (d : Decimal) : List Char :=
  if d.places = 0 then Nat.toDigits 10 d.digits
  else
    let cs := (Nat.toDigits 10 d.digits).leftpad (d.places + 1) '0'
    cs.take (cs.length - d.places) ++ '.' :: cs.drop (cs.length - d.places)

def text (d : Decimal) : String := String.ofList d.chars

end Decimal

end Bracketing
