import Bracketing.Proofs.Double.Parts
import Bracketing.Proofs.Double.Rounding

namespace Bracketing.Double

open Float.Model.UnpackedFloat (Sign)

attribute [local instance (2000)] instPowNat

def signed : Sign → ℚ → ℚ
  | .negative, q => -q
  | .positive, q => q

def magnitude (k : Nat) : ℚ := units k / 2 ^ unitExponent

def toRat (x : Float) : ℚ := signed (sign x) (magnitude (ordinal x))

/-- Half way between the largest finite double and the power of two above it. -/
def overflow : ℚ := 2 ^ 1024 - 2 ^ 970

structure RoundsTo (q : ℚ) (x : Float) : Prop where
  isInf : overflow ≤ |q| → x.isInf = true
  isFinite : |q| < overflow → x.isFinite = true
  isNegative_of_neg : q < 0 → isNegative x = true
  not_isNegative_of_pos : 0 < q → isNegative x = false
  nearest : |q| < overflow → ∀ y : Float, y.isFinite = true → |toRat x - q| ≤ |toRat y - q|
  even_of_tie : |q| < overflow → ∀ y : Float, y.isFinite = true → toRat y ≠ toRat x →
    |toRat y - q| = |toRat x - q| → significand (ordinal x) % 2 = 0

theorem cast_units (k : Nat) : (units k : ℚ) = magnitude k * 2 ^ unitExponent := by
  rw [magnitude, div_mul_cancel₀]
  positivity

theorem magnitude_nonneg (k : Nat) : 0 ≤ magnitude k := by
  unfold magnitude
  positivity

theorem magnitude_zero : magnitude 0 = 0 := by simp [magnitude]

theorem magnitude_pos {k : Nat} (h : 0 < k) : 0 < magnitude k := by
  have hunits : (0 : ℚ) < units k := by simpa using cast_units_lt h
  exact div_pos hunits (by positivity)

theorem signed_neg (s : Sign) (q : ℚ) : signed (-s) q = -signed s q := by
  cases s with
  | negative => exact (neg_neg q).symm
  | positive => rfl

theorem signed_eq_zero_iff (s : Sign) {q : ℚ} : signed s q = 0 ↔ q = 0 := by
  cases s with
  | negative => exact neg_eq_zero
  | positive => exact Iff.rfl

theorem signed_mul (s s' : Sign) (p q : ℚ) :
    signed s p * signed s' q = signed (s * s') (p * q) := by
  cases s <;> cases s'
  · exact neg_mul_neg p q
  · exact neg_mul p q
  · exact mul_neg p q
  · rfl

theorem signed_div (s s' : Sign) (p q : ℚ) :
    signed s p / signed s' q = signed (s / s') (p / q) := by
  cases s <;> cases s'
  · exact neg_div_neg_eq p q
  · exact neg_div q p
  · exact div_neg p
  · rfl

theorem signed_mul_right (s : Sign) (p q : ℚ) : signed s p * q = signed s (p * q) := by
  cases s with
  | negative => exact neg_mul p q
  | positive => rfl

theorem abs_signed (s : Sign) {q : ℚ} (h : 0 ≤ q) : |signed s q| = q := by
  cases s with
  | negative => rw [signed, abs_neg, abs_of_nonneg h]
  | positive => exact abs_of_nonneg h

theorem abs_signed_sub (s : Sign) (p q : ℚ) : |signed s p - signed s q| = |p - q| := by
  cases s with
  | negative => rw [signed, signed, neg_sub_neg, abs_sub_comm]
  | positive => rfl

theorem abs_signed_sub_of_ne {s s' : Sign} (h : s ≠ s') {p q : ℚ} (hp : 0 ≤ p) (hq : 0 ≤ q) :
    |signed s p - signed s' q| = p + q := by
  have hpq := add_nonneg hp hq
  cases s <;> cases s'
  · exact absurd rfl h
  · rw [signed, signed, ← neg_add', abs_neg, abs_of_nonneg hpq]
  · rw [signed, signed, sub_neg_eq_add, abs_of_nonneg hpq]
  · exact absurd rfl h

theorem abs_sub_le_abs_signed_sub (s s' : Sign) {p q : ℚ} (hp : 0 ≤ p) (hq : 0 ≤ q) :
    |p - q| ≤ |signed s p - signed s' q| := by
  by_cases h : s = s'
  · rw [h, abs_signed_sub]
  · rw [abs_signed_sub_of_ne h hp hq, abs_sub_le_iff]
    constructor <;> linarith

theorem two_pow_unitExponent_pos : (0 : ℚ) < 2 ^ unitExponent := pow_pos two_pos _

theorem abs_units_sub (k : Nat) (q : ℚ) :
    |(units k : ℚ) - q * 2 ^ unitExponent| = |magnitude k - q| * 2 ^ unitExponent := by
  rw [cast_units, ← sub_mul, abs_mul, abs_of_pos two_pow_unitExponent_pos]

theorem magnitude_infinity : magnitude infinity = 2 ^ 1024 := by
  have hk : infinity = binade + 2046 * binade := by decide
  have hbinade : (binade : ℚ) = 2 ^ 52 := by norm_num [binade]
  have hexponent : 52 + 2046 = 1024 + unitExponent := by decide
  rw [magnitude, div_eq_iff two_pow_unitExponent_pos.ne', hk,
    cast_units_add_mul (by decide) (.inr le_rfl), hbinade, ← pow_add, ← pow_add, hexponent]

theorem magnitude_infinity_pred : magnitude (infinity - 1) = 2 ^ 1024 - 2 ^ 971 := by
  have hk : infinity - 1 = (2 * binade - 1) + 2045 * binade := by decide
  have hbinade : ((2 * binade - 1 : Nat) : ℚ) = 2 ^ 53 - 1 := by norm_num [binade]
  have hexponent : 53 + 2045 = 1024 + unitExponent := by decide
  have hexponent' : 2045 = 971 + unitExponent := by decide
  rw [magnitude, div_eq_iff two_pow_unitExponent_pos.ne', hk,
    cast_units_add_mul (by decide) (.inr (by decide)), hbinade, sub_mul, sub_mul, ← pow_add,
    ← pow_add, ← pow_add, one_mul, hexponent, hexponent']

theorem two_mul_overflow : 2 * overflow = magnitude (infinity - 1) + magnitude infinity := by
  have hpow : (2 : ℚ) ^ 971 = 2 ^ 970 * 2 := pow_succ 2 970
  rw [magnitude_infinity, magnitude_infinity_pred, overflow, hpow]
  generalize (2 : ℚ) ^ 1024 = a
  generalize (2 : ℚ) ^ 970 = b
  ring

section Covers

variable {k : Nat} {q : ℚ} (h : Covers k (q * 2 ^ unitExponent))
include h

theorem Covers.eq_infinity_iff : k = infinity ↔ overflow ≤ q := by
  constructor
  · rintro rfl
    have habove := (h.above (infinity - 1) rfl).le
    rw [cast_units, cast_units, ← add_mul, ← two_mul_overflow, ← mul_assoc] at habove
    have hle := le_of_mul_le_mul_right habove two_pow_unitExponent_pos
    linarith
  · intro hq
    refine h.unique ⟨le_rfl, fun j hj => ?_, fun hlt => absurd hlt (lt_irrefl _)⟩
    have hle : 2 * overflow * 2 ^ unitExponent ≤ 2 * q * 2 ^ unitExponent :=
      mul_le_mul_of_nonneg_right (by linarith) two_pow_unitExponent_pos.le
    obtain rfl : j = infinity - 1 := by omega
    rw [two_mul_overflow, add_mul, ← cast_units, ← cast_units, mul_assoc] at hle
    exact upTo_of_le hle (by decide)

theorem Covers.upTo_magnitude {j : Nat} (hj : j ≤ infinity) (hne : j ≠ k) :
    UpTo k |magnitude k - q| |magnitude j - q| := by
  have habs := (h.upTo_abs hj hne).div_right two_pow_unitExponent_pos
  rwa [abs_units_sub, abs_units_sub, mul_div_cancel_right₀ _ two_pow_unitExponent_pos.ne',
    mul_div_cancel_right₀ _ two_pow_unitExponent_pos.ne'] at habs

theorem Covers.abs_le {j : Nat} (hj : j ≤ infinity) : |magnitude k - q| ≤ |magnitude j - q| := by
  by_cases hne : j = k
  · rw [hne]
  · exact (h.upTo_magnitude hj hne).le

end Covers

theorem toRat_ofParts (s : Sign) {k : Nat} (h : k ≤ infinity) :
    toRat (ofParts s k) = signed s (magnitude k) := by
  rw [toRat, sign_ofParts s h, ordinal_ofParts s h]

section RoundsTo

variable {k : Nat} {q : ℚ} (h : Covers k (q * 2 ^ unitExponent)) (hq : 0 ≤ q) (s : Sign)
include h hq

theorem Covers.even_of_tie {y : Float} (hy : y.isFinite = true)
    (hne : toRat y ≠ signed s (magnitude k)) (htie : |toRat y - signed s q| = |magnitude k - q|) :
    k % 2 = 0 := by
  have hle := abs_sub_le_abs_signed_sub (sign y) s (magnitude_nonneg (ordinal y)) hq
  by_cases hordinal : ordinal y = k
  · have hsign : sign y ≠ s := by
      rintro rfl
      rw [← hordinal] at hne
      exact hne rfl
    -- Then the number is no nearer to the double than to zero, which has to be the double.
    have hzero := h.abs_le (Nat.zero_le infinity)
    rw [magnitude_zero, zero_sub, abs_neg, abs_of_nonneg hq, ← htie, toRat, hordinal,
      abs_signed_sub_of_ne hsign (magnitude_nonneg k) hq] at hzero
    rcases Nat.eq_zero_or_pos k with rfl | hpos
    · rfl
    · have := magnitude_pos hpos
      linarith
  · exact (h.upTo_magnitude (isFinite_iff.1 hy).le hordinal).even (hle.trans htie.le)

theorem Covers.roundsTo : RoundsTo (signed s q) (ofParts s k) where
  isInf := by
    rw [abs_signed s hq, isInf_iff, ordinal_ofParts s h.le_infinity]
    exact h.eq_infinity_iff.2
  isFinite := by
    rw [abs_signed s hq, isFinite_iff, ordinal_ofParts s h.le_infinity]
    intro hlt
    exact lt_of_le_of_ne h.le_infinity fun heq =>
      absurd (h.eq_infinity_iff.1 heq) (not_le_of_gt hlt)
  isNegative_of_neg := by
    intro hneg
    rw [isNegative_iff, sign_ofParts s h.le_infinity]
    cases s with
    | negative => rfl
    | positive => exact absurd hneg (not_lt_of_ge hq)
  not_isNegative_of_pos := by
    intro hpos
    rw [← Bool.not_eq_true, isNegative_iff, sign_ofParts s h.le_infinity]
    rintro rfl
    rw [signed] at hpos
    linarith
  nearest := by
    intro _ y hy
    rw [toRat_ofParts s h.le_infinity, abs_signed_sub]
    exact (h.abs_le (isFinite_iff.1 hy).le).trans
      (abs_sub_le_abs_signed_sub _ s (magnitude_nonneg _) hq)
  even_of_tie := by
    intro _ y hy hne htie
    rw [toRat_ofParts s h.le_infinity] at hne htie
    rw [abs_signed_sub] at htie
    rw [ordinal_ofParts s h.le_infinity, significand_mod_two]
    exact h.even_of_tie hq s hy hne htie

end RoundsTo

end Bracketing.Double
