import Bracketing.Proofs.Double.Arithmetic
import Bracketing.Proofs.ZeroLaws

namespace Bracketing

open Float.Model (UnpackedFloat)
open Float.Model.UnpackedFloat (Sign)

namespace Operator

open Double

def onNumbers : Operator → ℚ → ℚ → ℚ
  | .add, p, q => p + q
  | .sub, p, q => p - q
  | .mul, p, q => p * q
  | .div, p, q => p / q

def zeroSign : Operator → Sign → Sign → Sign
  | .add, s, s' => sumSign s s'
  | .sub, s, s' => sumSign s (-s')
  | .mul, s, s' => s * s'
  | .div, s, s' => s / s'

def onParts : Operator → UnpackedFloat → UnpackedFloat → UnpackedFloat
  | .add, u, v => u.add .binary64 v
  | .sub, u, v => u.sub .binary64 v
  | .mul, u, v => u.mul .binary64 v
  | .div, u, v => u.div .binary64 v

theorem arithmetic_eq (op : Operator) (x y : Float) :
    op.arithmetic x y =
      .ofModel (.pack (op.onParts (unpacked (sign x) (ordinal x))
        (unpacked (sign y) (ordinal y)))) := by
  rw [← unpack_toModel, ← unpack_toModel]
  cases op <;> rfl

theorem isNearest_onParts (op : Operator) (s s' : Sign) {j k : Nat} (hj : j < infinity)
    (hk : k < infinity) (h : op = .div → 0 < k) :
    IsNearest (op.onNumbers (signed s (magnitude j)) (signed s' (magnitude k))) (op.zeroSign s s')
      (op.onParts (unpacked s j) (unpacked s' k)) := by
  cases op with
  | add => exact isNearest_add s s' hj hk
  | sub =>
    have hadd := isNearest_add s (-s') hj hk
    rw [← sub_unpacked, signed_neg, ← sub_eq_add_neg] at hadd
    exact hadd
  | mul =>
    rw [onNumbers, signed_mul]
    exact (isRounded_mul s s' hj hk).isNearest
      (mul_nonneg (magnitude_nonneg j) (magnitude_nonneg k))
  | div =>
    rw [onNumbers, signed_div]
    exact (isRounded_div s s' hj (h rfl) hk).isNearest
      (div_nonneg (magnitude_nonneg j) (magnitude_nonneg k))

def nan : Float := .ofModel (.pack .notANumber)

theorem arithmetic_eq_nan (op : Operator) {x y : Float}
    (h : x.isNaN = true ∨ y.isNaN = true) : op.arithmetic x y = nan := by
  rw [arithmetic_eq]
  rcases h with hx | hy
  · rw [unpacked_of_infinity_lt _ (isNaN_iff.1 hx)]
    cases op <;> rfl
  · rw [unpacked_of_infinity_lt _ (isNaN_iff.1 hy)]
    generalize unpacked (sign x) (ordinal x) = u
    cases op <;> cases u <;> rfl

/-- The result if there is an infinity, and both are numbers. -/
def atInfinity : Operator → Sign → Nat → Sign → Nat → Float
  | .add, s, j, s', k =>
    if j < infinity then ofParts s' infinity
    else if k < infinity || s == s' then ofParts s infinity
    else nan
  | .sub, s, j, s', k =>
    if j < infinity then ofParts (-s') infinity
    else if k < infinity || s == -s' then ofParts s infinity
    else nan
  | .mul, s, j, s', k => if j = 0 ∨ k = 0 then nan else ofParts (s * s') infinity
  | .div, s, j, s', k =>
    if j < infinity then ofParts (s / s') 0
    else if k < infinity then ofParts (s / s') infinity
    else nan

theorem ofModel_onParts_infinity_left (op : Operator) (s s' : Sign) {k : Nat} (hk : k < infinity) :
    .ofModel (.pack (op.onParts (unpacked s infinity) (unpacked s' k))) =
      op.atInfinity s infinity s' k := by
  rcases Nat.eq_zero_or_pos k with rfl | hk0
  · cases op <;> rfl
  · rw [unpacked_of_finite s' hk0 hk]
    have hself : ¬ infinity < infinity := Nat.lt_irrefl infinity
    have hne : ¬ (infinity = 0 ∨ k = 0) := not_or.2 ⟨by decide, hk0.ne'⟩
    cases op with
    | add =>
      rw [atInfinity, if_neg hself, decide_eq_true hk, Bool.true_or, if_pos rfl]
      rfl
    | sub =>
      rw [atInfinity, if_neg hself, decide_eq_true hk, Bool.true_or, if_pos rfl]
      rfl
    | mul =>
      rw [atInfinity, if_neg hne]
      rfl
    | div =>
      rw [atInfinity, if_neg hself, if_pos hk]
      rfl

theorem ofModel_onParts_infinity_right (op : Operator) (s s' : Sign) {j : Nat} (hj : j < infinity) :
    .ofModel (.pack (op.onParts (unpacked s j) (unpacked s' infinity))) =
      op.atInfinity s j s' infinity := by
  rcases Nat.eq_zero_or_pos j with rfl | hj0
  · cases op <;> rfl
  · rw [unpacked_of_finite s hj0 hj]
    have hne : ¬ (j = 0 ∨ infinity = 0) := not_or.2 ⟨hj0.ne', by decide⟩
    cases op with
    | mul =>
      rw [atInfinity, if_neg hne]
      rfl
    | _ =>
      rw [atInfinity, if_pos hj]
      rfl

theorem ofModel_onParts_infinities (op : Operator) (s s' : Sign) :
    .ofModel (.pack (op.onParts (unpacked s infinity) (unpacked s' infinity))) =
      op.atInfinity s infinity s' infinity := by
  cases op <;> cases s <;> cases s' <;> rfl

theorem arithmetic_eq_atInfinity (op : Operator) {x y : Float} (hx : x.isNaN = false)
    (hy : y.isNaN = false) (h : x.isInf = true ∨ y.isInf = true) :
    op.arithmetic x y = op.atInfinity (sign x) (ordinal x) (sign y) (ordinal y) := by
  rw [isInf_iff, isInf_iff] at h
  rw [arithmetic_eq]
  rcases Nat.eq_or_lt_of_le (isNaN_eq_false_iff.1 hx) with hx | hx
  · rw [hx]
    rcases Nat.eq_or_lt_of_le (isNaN_eq_false_iff.1 hy) with hy | hy
    · rw [hy]
      exact op.ofModel_onParts_infinities _ _
    · exact op.ofModel_onParts_infinity_left _ _ hy
  · rw [h.resolve_left hx.ne]
    exact op.ofModel_onParts_infinity_right _ _ hx

/-- What IEEE 754 has an operation on doubles come to, a division by zero apart. -/
structure Conforms (op : Operator) (x y z : Float) : Prop where
  of_isNaN : x.isNaN = true ∨ y.isNaN = true → z = nan
  of_isInf : x.isNaN = false → y.isNaN = false → x.isInf = true ∨ y.isInf = true →
    z = op.atInfinity (sign x) (ordinal x) (sign y) (ordinal y)
  roundsTo : x.isFinite = true → y.isFinite = true → RoundsTo (op.onNumbers (toRat x) (toRat y)) z
  sign_of_zero : x.isFinite = true → y.isFinite = true → op.onNumbers (toRat x) (toRat y) = 0 →
    sign z = op.zeroSign (sign x) (sign y)

theorem conforms_arithmetic (op : Operator) {x y : Float} (h : ¬ (op = .div ∧ IsZero y)) :
    op.Conforms x y (op.arithmetic x y) := by
  have hfinite : x.isFinite = true → y.isFinite = true → _ := fun hx hy =>
    op.isNearest_onParts (sign x) (sign y) (isFinite_iff.1 hx) (isFinite_iff.1 hy) fun hdiv =>
      Nat.pos_of_ne_zero fun hzero => h ⟨hdiv, isZero_iff.2 hzero⟩
  refine ⟨arithmetic_eq_nan op, arithmetic_eq_atInfinity op, fun hx hy => ?_, fun hx hy => ?_⟩
  · rw [arithmetic_eq]
    exact (hfinite hx hy).roundsTo
  · rw [arithmetic_eq]
    exact (hfinite hx hy).sign_of_zero

end Operator

end Bracketing
