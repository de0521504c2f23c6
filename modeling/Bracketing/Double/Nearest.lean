import Bracketing.Double.Units

namespace Bracketing.Double

attribute [local instance (2000)] instPowNat

/-- The whole number nearest to `n / d`; a half goes to the even neighbour. -/
def roundDiv (n d : Nat) : Nat :=
  match compare (2 * (n % d)) d with
  | .lt => n / d
  | .eq => n / d + n / d % 2
  | .gt => n / d + 1

/-- The number of the double nearest to `n / d` units. -/
def nearest (n d : Nat) : Nat :=
  let e := (n / d).log2 - 52
  min infinity (roundDiv n (d * 2 ^ e) + e * binade)

end Bracketing.Double
