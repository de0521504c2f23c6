import Bracketing.Proofs.Double.Value

/-!
How a result is rounded. Its mantissa is shifted until it has the bits of a significand, two more
bits stand for where the result lies above it, and by these it is rounded. That comes to the double
that covers the result.
-/

namespace Bracketing.Double

open Float.Model (Format UnpackedFloat totalExponent)
open Float.Model.UnpackedFloat (Accuracy ExtendedMantissa Sign)

attribute [local instance (2000)] instPowNat

/-- Where a number lies between a mantissa and the next one, by the two bits that stand for it. -/
inductive Lies : ExtendedMantissa → ℚ → Prop
  | exact {m : Nat} {p : ℚ} : p = m → Lies ⟨m, false, false⟩ p
  | below {m : Nat} {p : ℚ} : m < p → 2 * p < 2 * m + 1 → Lies ⟨m, false, true⟩ p
  | half {m : Nat} {p : ℚ} : 2 * p = 2 * m + 1 → Lies ⟨m, true, false⟩ p
  | above {m : Nat} {p : ℚ} : 2 * m + 1 < 2 * p → p < m + 1 → Lies ⟨m, true, true⟩ p

namespace Lies

variable {em : ExtendedMantissa} {p : ℚ}

theorem shiftRightOne (h : Lies em p) : Lies em.shiftRightOne (p / 2) := by
  obtain ⟨m, roundBit, stickyBit⟩ := em
  obtain ⟨n, rfl | rfl⟩ : ∃ n, m = 2 * n ∨ m = 2 * n + 1 := ⟨m / 2, by omega⟩
  · have hshift : ExtendedMantissa.shiftRightOne ⟨2 * n, roundBit, stickyBit⟩ =
        ⟨n, false, roundBit || stickyBit⟩ := by
      simp [ExtendedMantissa.shiftRightOne]
    rw [hshift]
    cases h <;> push_cast at *
    · exact .exact (by linarith)
    · exact .below (by linarith) (by linarith)
    · exact .below (by linarith) (by linarith)
    · exact .below (by linarith) (by linarith)
  · have hshift : ExtendedMantissa.shiftRightOne ⟨2 * n + 1, roundBit, stickyBit⟩ =
        ⟨n, true, roundBit || stickyBit⟩ := by
      simp [ExtendedMantissa.shiftRightOne]
      omega
    rw [hshift]
    cases h <;> push_cast at *
    · exact .half (by linarith)
    · exact .above (by linarith) (by linarith)
    · exact .above (by linarith) (by linarith)
    · exact .above (by linarith) (by linarith)

theorem shiftRight (h : Lies em p) (n : Nat) : Lies (em >>> n) (p / 2 ^ n) := by
  induction n with
  | zero =>
    rw [pow_zero, div_one]
    exact h
  | succ n ih =>
    rw [pow_succ, ← div_div]
    exact ih.shiftRightOne

theorem mantissa_le (h : Lies em p) : em.mantissa ≤ p := by
  cases h <;> simp only <;> linarith

theorem mantissa_le_rounded (em : ExtendedMantissa) : em.mantissa ≤ em.roundedMantissa := by
  obtain ⟨m, _ | _, _ | _⟩ := em
  · exact Nat.le_refl m
  · exact Nat.le_refl m
  · exact Nat.le_add_right m _
  · exact Nat.le_add_right m _

theorem rounded_le (em : ExtendedMantissa) : em.roundedMantissa ≤ em.mantissa + 1 := by
  obtain ⟨m, _ | _, _ | _⟩ := em
  · exact Nat.le_succ m
  · exact Nat.le_succ m
  · change m + m % 2 ≤ m + 1
    omega
  · exact Nat.le_refl (m + 1)

theorem upTo_rounded (h : Lies em p) :
    UpTo em.roundedMantissa (2 * em.roundedMantissa - 1) (2 * p) ∧
      UpTo em.roundedMantissa (2 * p) (2 * em.roundedMantissa + 1) := by
  cases h with
  | @exact m _ h =>
    change UpTo m (2 * m - 1) (2 * p) ∧ UpTo m (2 * p) (2 * m + 1)
    constructor <;> refine .inl ?_ <;> linarith
  | @below m _ h h' =>
    change UpTo m (2 * m - 1) (2 * p) ∧ UpTo m (2 * p) (2 * m + 1)
    constructor <;> refine .inl ?_ <;> linarith
  | @half m _ h =>
    change UpTo (m + m % 2) (2 * (m + m % 2 : Nat) - 1) (2 * p) ∧
      UpTo (m + m % 2) (2 * p) (2 * (m + m % 2 : Nat) + 1)
    rcases Nat.mod_two_eq_zero_or_one m with heven | hodd
    · rw [heven, Nat.add_zero]
      refine ⟨.inl ?_, .inr ⟨?_, heven⟩⟩ <;> linarith
    · rw [hodd]
      push_cast
      refine ⟨.inr ⟨?_, by omega⟩, .inl ?_⟩ <;> linarith
  | @above m _ h h' =>
    change UpTo (m + 1) (2 * (m + 1 : Nat) - 1) (2 * p) ∧
      UpTo (m + 1) (2 * p) (2 * (m + 1 : Nat) + 1)
    push_cast
    constructor <;> refine .inl ?_ <;> linarith

theorem mantissa_shiftRight (em : ExtendedMantissa) (n : Nat) :
    (em >>> n).mantissa = em.mantissa / 2 ^ n := by
  induction n with
  | zero => exact (Nat.div_one _).symm
  | succ n ih =>
    rw [Nat.pow_succ, ← Nat.div_div_eq_div_mul, ← ih]
    rfl

end Lies

section Rounding

variable (s : Sign) {m : Nat} {e : Int}

theorem targetExponent_eq (m : Nat) (e : Int) :
    Format.binary64.targetExponent (totalExponent m e) = max (m.log2 + e - 52) (-unitExponent) := by
  change max ((m.log2 : Int) + 1 + e - 53) (-1074) = max ((m.log2 : Int) + e - 52) (-(1074 : Nat))
  congr 1
  omega

theorem shiftToTargetExponent_eq {k : Nat} (acc : Accuracy)
    (h : max ((m.log2 : Int) + e - 52) (-unitExponent) = e + k) :
    UnpackedFloat.shiftToTargetExponent .binary64 m e acc =
      (ExtendedMantissa.ofMantissaAndAccuracy m acc >>> k, e + k) := by
  have hk : (Format.binary64.targetExponent (totalExponent m e) - e).toNat = k := by
    rw [targetExponent_eq, h]
    omega
  rw [UnpackedFloat.shiftToTargetExponent, UnpackedFloat.shiftToExponent, hk]

def ofShifted (s : Sign) (shifted : ExtendedMantissa × Int) : UnpackedFloat :=
  if h : shifted.1.mantissa = 0 then .zero s
  else .finite s shifted.1.mantissa shifted.2 (Nat.pos_of_ne_zero h)

theorem roundWithAccuracy_eq {first : ExtendedMantissa × Int} {acc : Accuracy}
    (h : UnpackedFloat.shiftToTargetExponent .binary64 m e acc = first) :
    UnpackedFloat.roundWithAccuracy .binary64 s m e acc =
      ofShifted s (UnpackedFloat.shiftToTargetExponent .binary64 first.1.roundedMantissa first.2
        .exact) := by
  subst h
  rfl

theorem ofModel_ofShifted {m e : Nat} (hlt : m < 2 * binade) (h : e = 0 ∨ binade ≤ m) :
    Float.ofModel (.pack (ofShifted s (⟨m, false, false⟩, (e : Int) - unitExponent))) =
      ofParts s (min infinity (m + e * binade)) := by
  rw [ofShifted]
  by_cases hzero : m = 0
  · subst hzero
    rw [dif_pos rfl, h.resolve_right (by decide)]
    rfl
  · rw [dif_neg hzero]
    apply eq_of_toBits
    rw [← UInt64.toNat_inj, toNat_toBits_ofParts s (Nat.min_le_left _ _)]
    exact @toNat_pack_finite s m e (Nat.pos_of_ne_zero hzero) hlt h

theorem log2_of_normal {r : Nat} (hlow : binade ≤ r) (hhigh : r < 2 * binade) : r.log2 = 52 := by
  have hpos : r ≠ 0 := by
    unfold binade at hlow
    omega
  exact (Nat.log2_eq_iff hpos).2 ⟨hlow, hhigh⟩

theorem shiftToTargetExponent_of_lt {r T : Nat} (hlt : r < 2 * binade) (h : T = 0 ∨ binade ≤ r) :
    UnpackedFloat.shiftToTargetExponent .binary64 r (T - unitExponent) .exact =
      (⟨r, false, false⟩, (T : Int) - unitExponent) := by
  have htarget : max ((r.log2 : Int) + (T - unitExponent) - 52) (-unitExponent) =
      T - unitExponent + (0 : Nat) := by
    rcases Nat.lt_or_ge r binade with hsmall | hlarge
    · have hT : T = 0 := h.resolve_right (Nat.not_le.2 hsmall)
      have hlog : r.log2 ≤ 52 := by
        rcases Nat.eq_zero_or_pos r with rfl | hpos
        · decide
        · exact Nat.le_of_lt ((Nat.log2_lt hpos.ne').2 hsmall)
      rw [hT]
      omega
    · rw [log2_of_normal hlarge hlt]
      omega
  rw [shiftToTargetExponent_eq .exact htarget]
  simp only [Nat.cast_zero, add_zero]
  rfl

theorem shiftToTargetExponent_carry (T : Nat) :
    UnpackedFloat.shiftToTargetExponent .binary64 (2 * binade) (T - unitExponent) .exact =
      (⟨binade, false, false⟩, ((T + 1 : Nat) : Int) - unitExponent) := by
  have hlog : (2 * binade).log2 = 53 := by decide +kernel
  have htarget : max (((2 * binade).log2 : Int) + (T - unitExponent) - 52) (-unitExponent) =
      T - unitExponent + (1 : Nat) := by
    rw [hlog]
    omega
  rw [shiftToTargetExponent_eq .exact htarget]
  have hexponent : (T : Int) - unitExponent + (1 : Nat) = ((T + 1 : Nat) : Int) - unitExponent := by
    omega
  rw [hexponent]
  rfl

theorem ofModel_roundWithAccuracy {T k : Nat} (acc : Accuracy)
    (htarget : max ((m.log2 : Int) + e - 52) (-unitExponent) = T - unitExponent)
    (hk : e + k = T - unitExponent) {em : ExtendedMantissa}
    (hem : ExtendedMantissa.ofMantissaAndAccuracy m acc >>> k = em)
    (hle : em.roundedMantissa ≤ 2 * binade) (hT : T = 0 ∨ binade ≤ em.roundedMantissa) :
    Float.ofModel (.pack (UnpackedFloat.roundWithAccuracy .binary64 s m e acc)) =
      ofParts s (min infinity (em.roundedMantissa + T * binade)) := by
  rw [← hk] at htarget
  have hfirst := shiftToTargetExponent_eq acc htarget
  rw [hem, hk] at hfirst
  rw [roundWithAccuracy_eq s hfirst]
  generalize em.roundedMantissa = r at *
  rcases Nat.eq_or_lt_of_le hle with rfl | hlt
  · have hsum : binade + (T + 1) * binade = 2 * binade + T * binade := by ring
    rw [shiftToTargetExponent_carry, ofModel_ofShifted s (by decide) (.inr le_rfl), hsum]
  · rw [shiftToTargetExponent_of_lt hlt hT, ofModel_ofShifted s hlt hT]

theorem two_pow_eq_zpow {T k : Nat} (hk : e + k = T - unitExponent) :
    (2 : ℚ) ^ T = 2 ^ k * (2 ^ e * 2 ^ unitExponent) := by
  have hT : (T : Int) = k + (e + unitExponent) := by omega
  rw [← zpow_natCast, hT, zpow_add₀ two_ne_zero, zpow_add₀ two_ne_zero, zpow_natCast, zpow_natCast]

def IsRounded (s : Sign) (q : ℚ) (u : UnpackedFloat) : Prop :=
  ∃ k, Covers k (q * 2 ^ unitExponent) ∧ Float.ofModel (.pack u) = ofParts s k

theorem isRounded_unpacked {k : Nat} (h : k ≤ infinity) :
    IsRounded s (magnitude k) (unpacked s k) := by
  refine ⟨k, ?_, rfl⟩
  rw [← cast_units]
  exact covers_units h

theorem isRounded_zero : IsRounded s 0 (.zero s) := by
  rw [← magnitude_zero]
  exact isRounded_unpacked s (Nat.zero_le infinity)

theorem isRounded_roundWithAccuracy {acc : Accuracy} {p : ℚ}
    (hp : Lies (ExtendedMantissa.ofMantissaAndAccuracy m acc) p)
    (he : 52 ≤ m.log2 ∨ e ≤ -unitExponent) :
    IsRounded s (p * 2 ^ e) (UnpackedFloat.roundWithAccuracy .binary64 s m e acc) := by
  obtain ⟨T, k, htarget, hk⟩ : ∃ T k : Nat,
      max ((m.log2 : Int) + e - 52) (-unitExponent) = T - unitExponent ∧
        e + k = T - unitExponent :=
    ⟨(max ((m.log2 : Int) + e - 52) (-unitExponent) + unitExponent).toNat,
      (max ((m.log2 : Int) + e - 52) (-unitExponent) - e).toNat, by omega, by omega⟩
  have hshift := hp.shiftRight k
  have hmantissa : (ExtendedMantissa.ofMantissaAndAccuracy m acc >>> k).mantissa = m / 2 ^ k := by
    rw [Lies.mantissa_shiftRight]
    cases acc with
    | exact => rfl
    | inexact o => cases o <;> rfl
  generalize hem : ExtendedMantissa.ofMantissaAndAccuracy m acc >>> k = em at *
  have hlt : em.mantissa < 2 * binade := by
    rw [hmantissa]
    exact div_two_pow_lt (by omega)
  have hnormal : 0 < T → binade ≤ em.mantissa := by
    intro hT
    rw [hmantissa, Nat.le_div_iff_mul_le (Nat.two_pow_pos k)]
    exact binade_mul_two_pow_le (by omega)
  have hlow := Lies.mantissa_le_rounded em
  have hhigh := Lies.rounded_le em
  have hT : T = 0 ∨ binade ≤ em.roundedMantissa :=
    (Nat.eq_zero_or_pos T).imp_right fun hT => (hnormal hT).trans hlow
  refine ⟨_, ?_, ofModel_roundWithAccuracy s acc htarget hk hem (by omega) hT⟩
  have hpow : (0 : ℚ) < 2 ^ T := by positivity
  have hq : p * 2 ^ e * 2 ^ unitExponent = p / 2 ^ k * 2 ^ T := by
    rw [two_pow_eq_zpow hk]
    field_simp
  obtain ⟨habove, hbelow⟩ := hshift.upTo_rounded
  rw [hq]
  apply covers_of_upTo (by omega) hT
  · intro hpos
    refine mul_le_mul_of_nonneg_right (le_trans ?_ hshift.mantissa_le) hpow.le
    exact_mod_cast hnormal hpos
  · rw [← mul_assoc]
    exact habove.mul_right hpow
  · rw [← mul_assoc]
    exact hbelow.mul_right hpow

end Rounding

/-- The parts of the double nearest to a number, with a sign for zero. -/
structure IsNearest (q : ℚ) (zeroSign : Sign) (u : UnpackedFloat) : Prop where
  roundsTo : RoundsTo q (.ofModel (.pack u))
  sign_of_zero : q = 0 → sign (.ofModel (.pack u)) = zeroSign

section IsNearest

variable {s s' : Sign} {q : ℚ} {u : UnpackedFloat}

theorem IsRounded.isNearest (h : IsRounded s q u) (hq : 0 ≤ q) : IsNearest (signed s q) s u := by
  obtain ⟨k, hk, heq⟩ := h
  constructor
  · rw [heq]
    exact hk.roundsTo hq s
  · intro _
    rw [heq]
    exact sign_ofParts s hk.le_infinity

theorem IsNearest.of_ne_zero (h : IsNearest q s u) (hq : q ≠ 0) : IsNearest q s' u :=
  ⟨h.roundsTo, fun hzero => absurd hzero hq⟩

theorem isNearest_zero (s : Sign) : IsNearest 0 s (.zero s) := by
  have h := (isRounded_zero s).isNearest le_rfl
  rwa [(signed_eq_zero_iff s).2 rfl] at h

theorem isNearest_unpacked (s s' : Sign) {k : Nat} (hpos : 0 < k) (hle : k ≤ infinity) :
    IsNearest (signed s (magnitude k)) s' (unpacked s k) :=
  ((isRounded_unpacked s hle).isNearest (magnitude_nonneg k)).of_ne_zero fun hzero =>
    (magnitude_pos hpos).ne' ((signed_eq_zero_iff s).1 hzero)

end IsNearest

end Bracketing.Double
