/-!
Doubles without their sign as counts. Numbered by their bits, the doubles from zero to infinity stand
in order of size, and each is a whole number of units of 2⁻¹⁰⁷⁴. Infinity takes the place that
2¹⁰²⁴ would have. Powers of natural numbers are core's own, here and in the modules built on this.
-/

namespace Bracketing.Double

attribute [local instance (2000)] instPowNat

/-- A unit is two to the power of minus this. -/
def unitExponent : Nat := 1074

def binade : Nat := 0x10000000000000

/-- The number of infinity; every finite double has a smaller one, every NaN a larger one. -/
def infinity : Nat := 2047 * binade

def signWeight : Nat := 0x8000000000000000

def exponent (k : Nat) : Nat := k / binade - 1

def significand (k : Nat) : Nat := k - exponent k * binade

def units (k : Nat) : Nat := significand k * 2 ^ exponent k

def ordinal (x : Float) : Nat := x.toBits.toNat % signWeight

def isNegative (x : Float) : Bool := decide (signWeight ≤ x.toBits.toNat)

def ofOrdinal (k : Nat) : Float := Float.ofBits (UInt64.ofNat k)

theorem significand_lt (k : Nat) : significand k < 2 * binade := by
  unfold significand exponent binade
  omega

theorem binade_le_significand {k : Nat} (h : 0 < exponent k) : binade ≤ significand k := by
  unfold significand
  unfold exponent binade at *
  omega

theorem significand_add (k : Nat) : significand k + exponent k * binade = k := by
  unfold significand exponent binade
  omega

@[simp] theorem units_zero : units 0 = 0 := rfl

theorem units_succ (k : Nat) : units (k + 1) = units k + 2 ^ exponent k := by
  by_cases h : exponent (k + 1) = exponent k
  · have hs : significand (k + 1) = significand k + 1 := by
      have := significand_add k
      have := significand_add (k + 1)
      rw [h] at this
      omega
    simp only [units, h, hs, Nat.add_mul, Nat.one_mul]
  · have he : exponent (k + 1) = exponent k + 1 := by
      unfold exponent binade at *
      omega
    have hs : 2 * significand (k + 1) = significand k + 1 := by
      unfold significand
      unfold exponent binade at *
      omega
    simp only [units, he, Nat.pow_succ]
    calc significand (k + 1) * (2 ^ exponent k * 2)
        = 2 * significand (k + 1) * 2 ^ exponent k := by
          rw [Nat.mul_comm (2 ^ _) 2, ← Nat.mul_assoc, Nat.mul_comm _ 2]
      _ = significand k * 2 ^ exponent k + 2 ^ exponent k := by
          rw [hs, Nat.add_mul, Nat.one_mul]

theorem units_lt_units {j k : Nat} (h : j < k) : units j < units k := by
  induction k with
  | zero => exact absurd h (Nat.not_lt_zero j)
  | succ k ih =>
    have hk : units k < units (k + 1) := by
      rw [units_succ]
      exact Nat.lt_add_of_pos_right (Nat.two_pow_pos _)
    cases Nat.lt_succ_iff_lt_or_eq.1 h with
    | inl h => exact Nat.lt_trans (ih h) hk
    | inr h => exact h ▸ hk

end Bracketing.Double
