import Bracketing.Decimal.Basic

/-!
The shortest decimal that reads back as a given double. A decimal reads back if it lies between the
double and its neighbours, no further than half way; half way itself counts for an even significand.
Numbers are counted in units of 10⁻¹⁰⁷⁴, of which every double is a whole number, and the grids of
powers of ten are tried from coarse to fine. The finest one holds the double itself.
-/

namespace Bracketing.Decimal

open Double (unitExponent units significand)

attribute [local instance (2000)] instPowNat

def tens (k : Nat) : Nat := units k * 5 ^ unitExponent

def readsBack (k n : Nat) : Bool :=
  let low := tens (k - 1) + tens k
  let high := tens k + tens (k + 1)
  if significand k % 2 = 0 then low ≤ 2 * n && 2 * n ≤ high
  else low < 2 * n && 2 * n < high

/-- The multiple of `step` next to the double `k` that reads back. If both do, it is the nearer one,
and the upper one when they are equally near. -/
def onGrid? (k step : Nat) : Option Nat :=
  let below := tens k / step
  if readsBack k (below * step) then
    if readsBack k ((below + 1) * step) && step ≤ 2 * (tens k % step) then some (below + 1)
    else some below
  else if readsBack k ((below + 1) * step) then some (below + 1)
  else none

def firstHit (hit? : Nat → Option Nat) (finest : Nat) : Nat → Nat × Nat
  | 0 => (finest, 0)
  | g + 1 => match hit? (g + 1) with
    | some d => (d, g + 1)
    | none => firstHit hit? finest g

def coarsest (k g : Nat) : Nat × Nat := firstHit (fun g => onGrid? k (10 ^ g)) (tens k) g

/-- The exponent of a power of ten above the double: a bit is worth less than 0.30103 digits. -/
def topGrid (k : Nat) : Nat := ((tens k).log2 + 1) * 30103 / 100000 + 1

def shortest (k : Nat) : Decimal :=
  if k = 0 then ⟨0, 0⟩
  else
    let hit := coarsest k (topGrid k)
    ⟨hit.1 * 10 ^ (hit.2 - unitExponent), unitExponent - hit.2⟩

end Bracketing.Decimal
