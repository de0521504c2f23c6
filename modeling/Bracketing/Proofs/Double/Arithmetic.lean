import Bracketing.Proofs.Double.Shifting

namespace Bracketing

open Float.Model (Format UnpackedFloat totalExponent)
open Float.Model.UnpackedFloat (Accuracy ExtendedMantissa Sign)

attribute [local instance (2000)] instPowNat

namespace Double

theorem magnitude_eq (k : Nat) :
    magnitude k = significand k * 2 ^ ((exponent k : Int) - unitExponent) := by
  rw [magnitude, units, Nat.cast_mul, Nat.cast_pow, Nat.cast_ofNat, zpow_sub₀ two_ne_zero,
    zpow_natCast, zpow_natCast, mul_div_assoc]

theorem Lies.of_exact (m : Nat) : Lies (ExtendedMantissa.ofMantissaAndAccuracy m .exact) m :=
  .exact rfl

theorem Lies.of_fraction (n : Nat) {d : Nat} (hd : 0 < d) :
    Lies (ExtendedMantissa.ofMantissaAndAccuracy (n / d)
      (UnpackedFloat.accuracyOfFraction (n % d) d)) (n / d) := by
  have hd' : (0 : ℚ) < d := by exact_mod_cast hd
  have hsplit : (n : ℚ) / d = (n / d : Nat) + (n % d : Nat) / d := by
    rw [← sub_eq_iff_eq_add', eq_div_iff hd'.ne', sub_mul, div_mul_cancel₀ _ hd'.ne',
      sub_eq_iff_eq_add]
    exact_mod_cast (Nat.mod_add_div' n d).symm
  have hlt : ((n % d : Nat) : ℚ) / d < 1 := by
    rw [div_lt_one hd']
    exact_mod_cast Nat.mod_lt n hd
  rw [hsplit]
  unfold UnpackedFloat.accuracyOfFraction
  generalize n / d = q at *
  split
  case isTrue hzero =>
    refine .exact ?_
    rw [hzero, Nat.cast_zero, zero_div, add_zero]
  case isFalse hne =>
    have hpos : (0 : ℚ) < (n % d : Nat) / d :=
      div_pos (by exact_mod_cast Nat.pos_of_ne_zero hne) hd'
    rcases Nat.lt_trichotomy (2 * (n % d)) d with hless | heq | hmore
    · rw [Nat.compare_eq_lt.2 hless]
      have hhalf : 2 * (((n % d : Nat) : ℚ) / d) < 1 := by
        rw [← mul_div_assoc, div_lt_one hd']
        exact_mod_cast hless
      exact .below (by linarith) (by linarith)
    · rw [Nat.compare_eq_eq.2 heq]
      have hhalf : 2 * (((n % d : Nat) : ℚ) / d) = 1 := by
        rw [← mul_div_assoc, div_eq_one_iff_eq hd'.ne']
        exact_mod_cast heq
      exact .half (by linarith)
    · rw [Nat.compare_eq_gt.2 hmore]
      have hhalf : 1 < 2 * (((n % d : Nat) : ℚ) / d) := by
        rw [← mul_div_assoc, one_lt_div hd']
        exact_mod_cast hmore
      exact .above (by linarith) (by linarith)

theorem le_log2 {m : Nat} (h : binade ≤ m) : 52 ≤ m.log2 :=
  (Nat.le_log2 (by unfold binade at h; omega)).2 h

theorem isRounded_mul (s s' : Sign) {j k : Nat} (hj : j < infinity) (hk : k < infinity) :
    IsRounded (s * s') (magnitude j * magnitude k)
      (UnpackedFloat.mul .binary64 (unpacked s j) (unpacked s' k)) := by
  rcases Nat.eq_zero_or_pos j with rfl | hj0
  · rw [magnitude_zero, zero_mul]
    rcases Nat.eq_zero_or_pos k with rfl | hk0
    · exact isRounded_zero _
    · rw [unpacked_of_finite s' hk0 hk]
      exact isRounded_zero _
  rcases Nat.eq_zero_or_pos k with rfl | hk0
  · rw [magnitude_zero, mul_zero, unpacked_of_finite s hj0 hj]
    exact isRounded_zero _
  have hbits : 52 ≤ (significand j * significand k).log2 ∨
      (exponent j : Int) - unitExponent + (exponent k - unitExponent) ≤ -unitExponent := by
    rcases exponent_eq_zero_or_binade_le j with hj' | hj'
    · rcases exponent_eq_zero_or_binade_le k with hk' | hk'
      · rw [hj', hk']
        omega
      · exact .inl (le_log2 (Nat.le_trans hk' (Nat.le_mul_of_pos_left _ (significand_pos hj0))))
    · exact .inl (le_log2 (Nat.le_trans hj' (Nat.le_mul_of_pos_right _ (significand_pos hk0))))
  have h := isRounded_roundWithAccuracy (s * s') (Lies.of_exact _) hbits
  rw [zpow_add₀ two_ne_zero, Nat.cast_mul, mul_mul_mul_comm] at h
  rw [unpacked_of_finite s hj0 hj, unpacked_of_finite s' hk0 hk, magnitude_eq, magnitude_eq]
  exact h

theorem cast_shiftLeft {e f : Int} {d : Nat} (m : Nat) (hd : e - f = d) :
    ((m <<< d : Nat) : ℚ) * 2 ^ f = m * 2 ^ e := by
  have he : e = d + f := by omega
  rw [he, zpow_add₀ two_ne_zero, zpow_natCast, Nat.shiftLeft_eq]
  push_cast
  ring

theorem two_pow_le_shiftLeft {m : Nat} (d : Nat) (hm : 0 < m) : 2 ^ (m.log2 + d) ≤ m <<< d := by
  rw [Nat.shiftLeft_eq, Nat.pow_add]
  exact Nat.mul_le_mul_right _ (Nat.log2_self_le hm.ne')

theorem le_log2_div {m m' d : Nat} (hm : 0 < m) (hm' : 0 < m') (hd : m'.log2 + 53 ≤ m.log2 + d) :
    52 ≤ (m <<< d / m').log2 := by
  apply le_log2
  rw [Nat.le_div_iff_mul_le hm']
  calc binade * m' ≤ binade * 2 ^ (m'.log2 + 1) :=
        Nat.mul_le_mul_left _ (Nat.le_of_lt Nat.lt_log2_self)
    _ = 2 ^ (52 + (m'.log2 + 1)) := (Nat.pow_add 2 52 _).symm
    _ ≤ 2 ^ (m.log2 + d) := Nat.pow_le_pow_right Nat.two_pos (by omega)
    _ ≤ m <<< d := two_pow_le_shiftLeft d hm

theorem div_finite_eq (s s' : Sign) {m m' : Nat} {e e' : Int} (hm : 0 < m) (hm' : 0 < m')
    {core : Nat × Int × Accuracy} (h : UnpackedFloat.divCore .binary64 m e m' e' = core) :
    UnpackedFloat.div .binary64 (.finite s m e hm) (.finite s' m' e' hm') =
      UnpackedFloat.roundWithAccuracy .binary64 (s / s') core.1 core.2.1 core.2.2 := by
  subst h
  rfl

theorem isRounded_div_finite (s s' : Sign) {m m' : Nat} (e e' : Int) (hm : 0 < m)
    (hm' : 0 < m') :
    IsRounded (s / s') (m * 2 ^ e / (m' * 2 ^ e'))
      (UnpackedFloat.div .binary64 (.finite s m e hm) (.finite s' m' e' hm')) := by
  have htarget : Format.binary64.targetExponent (totalExponent m e - totalExponent m' e') =
      max (m.log2 + e - (m'.log2 + e') - 53) (-unitExponent) := by
    change max ((m.log2 : Int) + 1 + e - (m'.log2 + 1 + e') - 53) (-1074) =
      max ((m.log2 : Int) + e - (m'.log2 + e') - 53) (-(1074 : Nat))
    congr 1
    omega
  obtain ⟨d, f, hf, hd⟩ : ∃ (d : Nat) (f : Int),
      min (e - e') (max (m.log2 + e - (m'.log2 + e') - 53) (-unitExponent)) = f ∧
        e - e' - f = d :=
    ⟨(e - e' - min (e - e') (max (m.log2 + e - (m'.log2 + e') - 53) (-unitExponent))).toNat,
      _, rfl, by omega⟩
  have hcore : UnpackedFloat.divCore .binary64 m e m' e' =
      (m <<< d / m', f, UnpackedFloat.accuracyOfFraction (m <<< d % m') m') := by
    rw [UnpackedFloat.divCore]
    simp only [htarget, hf, hd, Int.toNat_natCast]
  have hbits : 52 ≤ (m <<< d / m').log2 ∨ f ≤ -unitExponent := by
    rcases Int.lt_or_le (-unitExponent) f with hlt | hle
    · exact .inl (le_log2_div hm hm' (by omega))
    · exact .inr hle
  have h := isRounded_roundWithAccuracy (s / s') (Lies.of_fraction (m <<< d) hm') hbits
  have hvalue : (m : ℚ) * 2 ^ e / (m' * 2 ^ e') = (m <<< d : Nat) / m' * 2 ^ f := by
    rw [← cast_shiftLeft m (show e - (f + e') = d by omega), zpow_add₀ two_ne_zero, ← mul_assoc,
      mul_div_mul_right _ _ (zpow_pos two_pos e').ne', mul_div_right_comm]
  rw [hvalue, div_finite_eq s s' hm hm' hcore]
  exact h

theorem isRounded_div (s s' : Sign) {j k : Nat} (hj : j < infinity) (hk0 : 0 < k)
    (hk : k < infinity) :
    IsRounded (s / s') (magnitude j / magnitude k)
      (UnpackedFloat.div .binary64 (unpacked s j) (unpacked s' k)) := by
  rw [unpacked_of_finite s' hk0 hk]
  rcases Nat.eq_zero_or_pos j with rfl | hj0
  · rw [magnitude_zero, zero_div]
    exact isRounded_zero _
  · rw [unpacked_of_finite s hj0 hj, magnitude_eq, magnitude_eq]
    exact isRounded_div_finite s s' _ _ (significand_pos hj0) (significand_pos hk0)

section Sum

theorem isRounded_round (s : Sign) {m : Nat} (e : Int) (hm : 0 < m) :
    IsRounded s (m * 2 ^ e) (UnpackedFloat.round .binary64 s m e) := by
  obtain ⟨d, hd⟩ : ∃ d : Nat, (e - max ((m.log2 : Int) + e - 52) (-unitExponent)).toNat = d :=
    ⟨_, rfl⟩
  have hbits : 52 ≤ (m <<< d).log2 ∨ e - d ≤ -unitExponent := by
    rcases Int.lt_or_le (-unitExponent) (e - d) with hlt | hle
    · have hle : 52 ≤ m.log2 + d := by omega
      exact .inl (le_log2 ((Nat.pow_le_pow_right Nat.two_pos hle).trans (two_pow_le_shiftLeft d hm)))
    · exact .inr hle
  have h := isRounded_roundWithAccuracy s (Lies.of_exact (m <<< d)) hbits
  rw [← cast_shiftLeft m (show e - (e - d) = d by omega)]
  unfold UnpackedFloat.round UnpackedFloat.decreaseExponent
  simp only [targetExponent_eq, hd]
  exact h

theorem cast_apply (s : Sign) (n : Int) : ((s.apply n : Int) : ℚ) = signed s n := by
  cases s with
  | negative => exact Int.cast_neg n
  | positive => rfl

theorem isNearest_normalize (m e : Int) (zeroSign : Sign) :
    IsNearest (m * 2 ^ e) zeroSign (UnpackedFloat.normalize .binary64 m e zeroSign) := by
  have hpow : (0 : ℚ) < 2 ^ e := zpow_pos two_pos e
  have hnonneg : ∀ n : Nat, (0 : ℚ) ≤ n * 2 ^ e := fun n =>
    mul_nonneg (Nat.cast_nonneg n) hpow.le
  have hne : m ≠ 0 → (m : ℚ) * 2 ^ e ≠ 0 := fun h =>
    mul_ne_zero (Int.cast_ne_zero.2 h) hpow.ne'
  unfold UnpackedFloat.normalize
  rcases Int.lt_trichotomy m 0 with hneg | rfl | hpos
  · rw [Int.compare_eq_lt.2 hneg]
    have h := (isRounded_round .negative e (show 0 < (-m).toNat by omega)).isNearest (hnonneg _)
    have hcast : (((-m).toNat : Nat) : ℚ) = -m := by
      exact_mod_cast Int.toNat_of_nonneg (show 0 ≤ -m by omega)
    rw [signed, hcast, neg_mul, neg_neg] at h
    exact h.of_ne_zero (hne hneg.ne)
  · rw [Int.cast_zero, zero_mul]
    exact isNearest_zero zeroSign
  · rw [Int.compare_eq_gt.2 hpos]
    have h := (isRounded_round .positive e (show 0 < m.toNat by omega)).isNearest (hnonneg _)
    have hcast : ((m.toNat : Nat) : ℚ) = m := by
      exact_mod_cast Int.toNat_of_nonneg hpos.le
    rw [signed, hcast] at h
    exact h.of_ne_zero (hne hpos.ne')

/-- The sign of a sum of zeros, and of numbers that cancel. -/
def sumSign : Sign → Sign → Sign
  | .negative, .negative => .negative
  | _, _ => .positive

theorem sumSign_of_sum_eq_zero {s s' : Sign} {p q : ℚ} (hp : 0 < p)
    (hq : 0 < q) (h : signed s p + signed s' q = 0) : sumSign s s' = .positive := by
  cases s <;> cases s'
  · simp only [signed] at h
    linarith
  · rfl
  · rfl
  · rfl

theorem isNearest_add_finite (s s' : Sign) {m m' : Nat} (e e' : Int) (hm : 0 < m) (hm' : 0 < m') :
    IsNearest (signed s (m * 2 ^ e) + signed s' (m' * 2 ^ e')) (sumSign s s')
      (UnpackedFloat.add .binary64 (.finite s m e hm) (.finite s' m' e' hm')) := by
  obtain ⟨d, hd⟩ : ∃ d : Nat, e - min e e' = d := ⟨(e - min e e').toNat, by omega⟩
  obtain ⟨d', hd'⟩ : ∃ d' : Nat, e' - min e e' = d' := ⟨(e' - min e e').toNat, by omega⟩
  have hadd : UnpackedFloat.add .binary64 (.finite s m e hm) (.finite s' m' e' hm') =
      UnpackedFloat.normalize .binary64
        (s.apply (m <<< d : Nat) + s'.apply (m' <<< d' : Nat)) (min e e') .positive := by
    rw [← Int.toNat_natCast d, ← Int.toNat_natCast d', ← hd, ← hd']
    rfl
  have hvalue : signed s (m * 2 ^ e) + signed s' (m' * 2 ^ e') =
      (s.apply (m <<< d : Nat) + s'.apply (m' <<< d' : Nat) : Int) * 2 ^ min e e' := by
    rw [Int.cast_add, cast_apply, cast_apply, add_mul, signed_mul_right, signed_mul_right,
      Int.cast_natCast, Int.cast_natCast, cast_shiftLeft m hd, cast_shiftLeft m' hd']
  have hpow : ∀ f : Int, (0 : ℚ) < 2 ^ f := fun f => zpow_pos two_pos f
  have h := isNearest_normalize (s.apply (m <<< d : Nat) + s'.apply (m' <<< d' : Nat))
    (min e e') .positive
  rw [← hvalue, ← hadd] at h
  refine ⟨h.roundsTo, fun hzero => ?_⟩
  rw [sumSign_of_sum_eq_zero (mul_pos (Nat.cast_pos.2 hm) (hpow e))
    (mul_pos (Nat.cast_pos.2 hm') (hpow e')) hzero]
  exact h.sign_of_zero hzero

theorem isNearest_add (s s' : Sign) {j k : Nat} (hj : j < infinity) (hk : k < infinity) :
    IsNearest (signed s (magnitude j) + signed s' (magnitude k)) (sumSign s s')
      (UnpackedFloat.add .binary64 (unpacked s j) (unpacked s' k)) := by
  have hzero : ∀ s : Sign, signed s (magnitude 0) = 0 := fun s =>
    (signed_eq_zero_iff s).2 magnitude_zero
  rcases Nat.eq_zero_or_pos j with rfl | hj0
  · rw [hzero, zero_add]
    rcases Nat.eq_zero_or_pos k with rfl | hk0
    · have hadd : UnpackedFloat.add .binary64 (unpacked s 0) (unpacked s' 0) =
          .zero (sumSign s s') := by
        cases s <;> cases s' <;> rfl
      rw [hadd, hzero]
      exact isNearest_zero _
    · have hadd : UnpackedFloat.add .binary64 (unpacked s 0) (unpacked s' k) = unpacked s' k := by
        rw [unpacked_of_finite s' hk0 hk]
        rfl
      rw [hadd]
      exact isNearest_unpacked s' _ hk0 hk.le
  · rcases Nat.eq_zero_or_pos k with rfl | hk0
    · have hadd : UnpackedFloat.add .binary64 (unpacked s j) (unpacked s' 0) = unpacked s j := by
        rw [unpacked_of_finite s hj0 hj]
        rfl
      rw [hadd, hzero, add_zero]
      exact isNearest_unpacked s _ hj0 hj.le
    · rw [unpacked_of_finite s hj0 hj, unpacked_of_finite s' hk0 hk, magnitude_eq, magnitude_eq]
      exact isNearest_add_finite s s' _ _ (significand_pos hj0) (significand_pos hk0)

end Sum

section Difference

theorem neg_unpacked (s : Sign) (k : Nat) : (unpacked s k).neg = unpacked (-s) k := by
  rcases kind_cases k with rfl | ⟨hpos, hlt⟩ | rfl | hlt
  · rfl
  · rw [unpacked_of_finite s hpos hlt, unpacked_of_finite (-s) hpos hlt]
    rfl
  · rfl
  · rw [unpacked_of_infinity_lt s hlt, unpacked_of_infinity_lt (-s) hlt]
    rfl

theorem apply_neg (s : Sign) (n : Int) : (-s).apply n = -s.apply n := by
  cases s with
  | negative => exact (Int.neg_neg n).symm
  | positive => rfl

theorem parts_sub_eq_add_neg (f : Format) (u v : UnpackedFloat) : u.sub f v = u.add f v.neg := by
  cases u with
  | notANumber => rfl
  | infinity s => cases v <;> rfl
  | zero s => cases v <;> rfl
  | finite s m e hm =>
    cases v with
    | finite s' m' e' hm' =>
      have hneg (n : Int) : s.apply (m <<< (e - min e e').toNat : Nat) - s'.apply n =
          s.apply (m <<< (e - min e e').toNat : Nat) + (-s').apply n := by
        rw [apply_neg, Int.sub_eq_add_neg]
      exact congrArg (UnpackedFloat.normalize f · (min e e') .positive) (hneg _)
    | _ => rfl

theorem sub_unpacked (s s' : Sign) (j k : Nat) :
    UnpackedFloat.sub .binary64 (unpacked s j) (unpacked s' k) =
      UnpackedFloat.add .binary64 (unpacked s j) (unpacked (-s') k) := by
  rw [parts_sub_eq_add_neg, neg_unpacked]

end Difference

end Double

end Bracketing
