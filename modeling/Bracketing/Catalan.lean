namespace Bracketing

namespace Catalan

attribute [local instance (2000)] instPowNat

def width : Nat := 128

def next? (k count : Nat) : Option Nat :=
  let common := count.gcd (k + 2)
  let next := count / common * (2 * (2 * k + 1) / ((k + 2) / common))
  if next < 2 ^ width then some next else none

/-- From the count for `k` operators to the one for `steps` more, unless one of them is too large. -/
def after? (k count : Nat) : Nat → Option Nat
  | 0 => some count
  | steps + 1 => (next? k count).bind fun next => after? (k + 1) next steps

end Catalan

def catalan? (operators : Nat) : Option Nat := Catalan.after? 0 1 operators

end Bracketing
