import Bracketing.Double.Units

namespace Bracketing.Double

open Float.Model (Format UnpackedFloat)
open Float.Model.UnpackedFloat (Sign)

def signBits : Sign → Nat
  | .negative => signWeight
  | .positive => 0

def signOfBits (bits : Nat) : Sign := if signWeight ≤ bits then .negative else .positive

theorem signOfBits_add (s : Sign) {k : Nat} (h : k < signWeight) :
    signOfBits (signBits s + k) = s := by
  cases s with
  | negative => exact if_pos (Nat.le_add_right _ _)
  | positive =>
    rw [signBits, Nat.zero_add]
    exact if_neg (Nat.not_le_of_lt h)

theorem signBits_add_mod (s : Sign) {k : Nat} (h : k < signWeight) :
    (signBits s + k) % signWeight = k := by
  cases s with
  | negative => rw [signBits, Nat.add_mod_left, Nat.mod_eq_of_lt h]
  | positive => rw [signBits, Nat.zero_add, Nat.mod_eq_of_lt h]

theorem significand_pos {k : Nat} (h : 0 < k) : 0 < significand k := by
  unfold significand exponent binade
  omega

theorem exponent_eq_zero_or_binade_le (k : Nat) : exponent k = 0 ∨ binade ≤ significand k :=
  (Nat.eq_zero_or_pos _).imp_right binade_le_significand

theorem exponent_of_lt {k : Nat} (h : k < binade) : exponent k = 0 := by
  rw [exponent, Nat.div_eq_of_lt h]

theorem significand_of_lt {k : Nat} (h : k < binade) : significand k = k % binade := by
  rw [significand, exponent_of_lt h, Nat.zero_mul, Nat.sub_zero, Nat.mod_eq_of_lt h]

theorem exponent_add_one_of_le {k : Nat} (h : binade ≤ k) : exponent k + 1 = k / binade :=
  Nat.sub_add_cancel (Nat.div_pos h (by decide))

theorem significand_of_le {k : Nat} (h : binade ≤ k) : significand k = binade + k % binade := by
  have hexponent := exponent_add_one_of_le h
  unfold significand binade at *
  omega

theorem significand_mod_two (k : Nat) : significand k % 2 = k % 2 := by
  unfold significand exponent binade
  omega

def unpacked (s : Sign) (k : Nat) : UnpackedFloat :=
  if infinity < k then .notANumber
  else if k = infinity then .infinity s
  else if h : 0 < k then .finite s (significand k) (exponent k - unitExponent) (significand_pos h)
  else .zero s

theorem unpacked_of_infinity_lt (s : Sign) {k : Nat} (h : infinity < k) :
    unpacked s k = .notANumber := if_pos h

theorem unpacked_infinity (s : Sign) : unpacked s infinity = .infinity s := rfl

theorem unpacked_zero (s : Sign) : unpacked s 0 = .zero s := rfl

theorem unpacked_of_finite (s : Sign) {k : Nat} (hpos : 0 < k) (hlt : k < infinity) :
    unpacked s k =
      .finite s (significand k) (exponent k - unitExponent) (significand_pos hpos) := by
  rw [unpacked, if_neg (Nat.lt_asymm hlt), if_neg (Nat.ne_of_lt hlt), dif_pos hpos]

theorem kind_cases (k : Nat) :
    k = 0 ∨ (0 < k ∧ k < infinity) ∨ k = infinity ∨ infinity < k := by
  unfold infinity binade
  omega

section Unpacking

variable (b : BitVec 64)

theorem toNat_unpackSign :
    (@UnpackedFloat.unpackSign Format.binary64 b).toNat = b.toNat / signWeight := by
  have hlt : b.toNat < 2 * signWeight := b.isLt
  change (b.extractLsb 63 63).toNat = b.toNat / signWeight
  rw [BitVec.extractLsb_toNat, Nat.shiftRight_eq_div_pow]
  change b.toNat / signWeight % 2 = b.toNat / signWeight
  unfold signWeight at *
  omega

theorem ofBitVec_unpackSign :
    Sign.ofBitVec (@UnpackedFloat.unpackSign Format.binary64 b) = signOfBits b.toNat := by
  have hsign : @UnpackedFloat.unpackSign Format.binary64 b = 0#1 ↔ ¬ signWeight ≤ b.toNat := by
    rw [← BitVec.toNat_inj, toNat_unpackSign, BitVec.toNat_zero, Nat.div_eq_zero_iff]
    unfold signWeight
    omega
  simp only [Sign.ofBitVec, signOfBits, hsign, ite_not]

theorem toNat_unpackExponent :
    (@UnpackedFloat.unpackExponent Format.binary64 b).toNat = b.toNat % signWeight / binade := by
  have h : (@UnpackedFloat.unpackExponent Format.binary64 b).toNat = b.toNat / binade % 2048 := by
    simp [UnpackedFloat.unpackExponent, Nat.shiftRight_eq_div_pow, binade]
  rw [h]
  unfold binade signWeight
  omega

theorem toNat_unpackMantissa :
    (@UnpackedFloat.unpackMantissa Format.binary64 b).toNat = b.toNat % signWeight % binade := by
  have h : (@UnpackedFloat.unpackMantissa Format.binary64 b).toNat = b.toNat % binade := by
    simp [UnpackedFloat.unpackMantissa, binade]
  rw [h]
  unfold binade signWeight
  omega

theorem unpackExponent_eq_last_iff :
    @UnpackedFloat.unpackExponent Format.binary64 b = -1#11 ↔ infinity ≤ b.toNat % signWeight := by
  rw [← BitVec.toNat_inj, toNat_unpackExponent]
  change b.toNat % signWeight / binade = 2047 ↔ _
  have hlt : b.toNat % signWeight < signWeight := Nat.mod_lt _ (by decide)
  unfold infinity binade signWeight at *
  omega

theorem unpackExponent_eq_first_iff :
    @UnpackedFloat.unpackExponent Format.binary64 b = 0#11 ↔ b.toNat % signWeight < binade := by
  rw [← BitVec.toNat_inj, toNat_unpackExponent, BitVec.toNat_zero,
    Nat.div_eq_zero_iff_lt (by decide)]

theorem unpackMantissa_eq_zero_iff :
    @UnpackedFloat.unpackMantissa Format.binary64 b = 0#52 ↔
      b.toNat % signWeight % binade = 0 := by
  rw [← BitVec.toNat_inj, toNat_unpackMantissa, BitVec.toNat_zero]

theorem toNat_append_unpackMantissa :
    (1#1 ++ @UnpackedFloat.unpackMantissa Format.binary64 b).toNat =
      binade + b.toNat % signWeight % binade := by
  have hlt : (@UnpackedFloat.unpackMantissa Format.binary64 b).toNat < 2 ^ 52 := BitVec.isLt _
  rw [BitVec.toNat_append, ← Nat.shiftLeft_add_eq_or_of_lt hlt, toNat_unpackMantissa]
  rfl

theorem finite_congr {s : Sign} {m m' : Nat} {e e' : Int} {hm : 0 < m} {hm' : 0 < m'}
    (h : m = m') (h' : e = e') : UnpackedFloat.finite s m e hm = .finite s m' e' hm' := by
  subst h h'
  rfl

theorem unpack_eq :
    UnpackedFloat.unpack Format.binary64 b =
      unpacked (signOfBits b.toNat) (b.toNat % signWeight) := by
  have hlast := unpackExponent_eq_last_iff b
  have hfirst := unpackExponent_eq_first_iff b
  have hzero := unpackMantissa_eq_zero_iff b
  have hexponent := toNat_unpackExponent b
  have hmantissa := toNat_unpackMantissa b
  have hleading := toNat_append_unpackMantissa b
  have hbound : b.toNat % signWeight < signWeight := Nat.mod_lt _ (by decide)
  unfold UnpackedFloat.unpack
  dsimp only
  rw [ofBitVec_unpackSign]
  generalize signOfBits b.toNat = s
  generalize b.toNat % signWeight = k at *
  rcases kind_cases k with rfl | ⟨hpos, hlt⟩ | rfl | hlt
  · rw [if_neg (mt hlast.1 (by decide)), if_pos (hfirst.2 (by decide)), dif_pos (hzero.2 rfl),
      unpacked_zero]
  · rw [if_neg (mt hlast.1 (Nat.not_le.2 hlt)), unpacked_of_finite s hpos hlt]
    rcases Nat.lt_or_ge k binade with hsmall | hlarge
    · have hne : k % binade ≠ 0 := by
        rw [Nat.mod_eq_of_lt hsmall]
        exact Nat.ne_of_gt hpos
      rw [if_pos (hfirst.2 hsmall), dif_neg (mt hzero.1 hne)]
      apply finite_congr
      · rw [hmantissa, significand_of_lt hsmall]
      · rw [hexponent, exponent_of_lt hsmall, Nat.div_eq_of_lt hsmall]
        rfl
    · rw [if_neg (mt hfirst.1 (Nat.not_lt.2 hlarge))]
      apply finite_congr
      · rw [hleading, significand_of_le hlarge]
      · rw [hexponent, ← exponent_add_one_of_le hlarge]
        change ((exponent k + 1 : Nat) : Int) - 1075 = exponent k - (1074 : Nat)
        omega
  · rw [if_pos (hlast.2 (Nat.le_refl _)), if_pos (hzero.2 (by decide)), unpacked_infinity]
  · have hne : k % binade ≠ 0 := by
      unfold infinity binade signWeight at *
      omega
    rw [if_pos (hlast.2 (Nat.le_of_lt hlt)), if_neg (mt hzero.1 hne), unpacked_of_infinity_lt s hlt]

end Unpacking

section Packing

variable (s : Sign)

theorem toNat_packComponents (e : BitVec 11) (m : BitVec 52) :
    (UnpackedFloat.packComponents Format.binary64 s e m).toNat =
      signBits s + e.toNat * binade + m.toNat := by
  have hm : m.toNat < 2 ^ 52 := m.isLt
  have he : e.toNat < 2 ^ 11 := e.isLt
  have h : (UnpackedFloat.packComponents Format.binary64 s e m).toNat =
      (s.toBitVec.toNat <<< 11 + e.toNat) <<< 52 + m.toNat := by
    rw [Nat.shiftLeft_add_eq_or_of_lt he, Nat.shiftLeft_add_eq_or_of_lt hm, ← BitVec.toNat_append,
      ← BitVec.toNat_append]
    rfl
  rw [h, Nat.shiftLeft_eq, Nat.shiftLeft_eq]
  cases s with
  | negative =>
    change (1 * 2 ^ 11 + e.toNat) * 2 ^ 52 + m.toNat = signWeight + e.toNat * binade + m.toNat
    unfold signWeight binade
    omega
  | positive =>
    change (0 * 2 ^ 11 + e.toNat) * 2 ^ 52 + m.toNat = 0 + e.toNat * binade + m.toNat
    unfold binade
    omega

theorem toNat_packedInfinity :
    (UnpackedFloat.packedInfinity Format.binary64 s).toNat = signBits s + infinity := by
  rw [UnpackedFloat.packedInfinity, toNat_packComponents]
  rfl

theorem toNat_packedZero :
    (UnpackedFloat.packedZero Format.binary64 s).toNat = signBits s := by
  rw [UnpackedFloat.packedZero, toNat_packComponents]
  rfl

theorem toNat_pack_finite {m e : Nat} {hm : 0 < m} (hlt : m < 2 * binade)
    (h : e = 0 ∨ binade ≤ m) :
    (UnpackedFloat.pack Format.binary64 (.finite s m (e - unitExponent) hm)).toNat =
      signBits s + min infinity (m + e * binade) := by
  have hbiased : ((e : Int) - unitExponent + Format.binary64.exponentBias + (52 : Nat)).toNat =
      e + 1 := by
    change ((e : Int) - 1074 + 1023 + 52).toNat = e + 1
    omega
  have hleading : m.log2 + 1 = Format.binary64.mantissaBits ↔ binade ≤ m := by
    have hlog : m.log2 < 53 := (Nat.log2_lt (Nat.ne_of_gt hm)).2 hlt
    change m.log2 + 1 = 53 ↔ 2 ^ 52 ≤ m
    rw [← Nat.le_log2 (Nat.ne_of_gt hm)]
    omega
  unfold UnpackedFloat.pack
  simp only [hbiased, hleading]
  split
  case isTrue hlarge =>
    change 2048 ≤ e + 1 + 1 at hlarge
    rw [toNat_packedInfinity, Nat.min_eq_left]
    unfold infinity binade at *
    omega
  case isFalse hlarge =>
    change ¬ 2048 ≤ e + 1 + 1 at hlarge
    rw [Nat.min_eq_right (by unfold infinity binade at *; omega)]
    split
    case isTrue hnormal =>
      rw [toNat_packComponents, BitVec.toNat_ofNat, BitVec.toNat_ofNat]
      change signBits s + (e + 1) % 2048 * binade + m % binade = _
      unfold binade at *
      omega
    case isFalse hnormal =>
      rw [toNat_packComponents, BitVec.toNat_ofNat, BitVec.toNat_ofNat]
      change signBits s + 0 * binade + m % binade = _
      unfold binade at *
      omega

theorem toNat_pack_unpacked {k : Nat} (h : k ≤ infinity) :
    (UnpackedFloat.pack Format.binary64 (unpacked s k)).toNat = signBits s + k := by
  rcases Nat.eq_or_lt_of_le h with rfl | hlt
  · exact toNat_packedInfinity s
  rcases Nat.eq_zero_or_pos k with rfl | hpos
  · exact toNat_packedZero s
  rw [unpacked_of_finite s hpos hlt,
    toNat_pack_finite s (significand_lt k) (exponent_eq_zero_or_binade_le k), significand_add,
    Nat.min_eq_right h]

end Packing

theorem eq_of_toBits {x y : Float} (h : x.toBits = y.toBits) : x = y := by
  obtain ⟨⟨b, hb⟩⟩ := x
  obtain ⟨⟨c, hc⟩⟩ := y
  cases show b = c from h
  rfl

def sign (x : Float) : Sign := signOfBits x.toBits.toNat

theorem toNat_toBits (x : Float) : x.toBits.toNat = signBits (sign x) + ordinal x := by
  have hlt : x.toBits.toNat < 2 * signWeight := x.toBits.toNat_lt
  unfold sign signOfBits ordinal
  split
  · simp only [signBits]
    unfold signWeight at *
    omega
  · simp only [signBits]
    unfold signWeight at *
    omega

theorem eq_of_parts {x y : Float} (hsign : sign x = sign y) (hordinal : ordinal x = ordinal y) :
    x = y := by
  apply eq_of_toBits
  rw [← UInt64.toNat_inj, toNat_toBits, toNat_toBits, hsign, hordinal]

theorem unpack_toModel (x : Float) : x.toModel.unpack = unpacked (sign x) (ordinal x) :=
  unpack_eq x.toBits.toBitVec

/-- The double with the given sign and number. -/
def ofParts (s : Sign) (k : Nat) : Float := .ofModel (.pack (unpacked s k))

section OfParts

variable (s : Sign) {k : Nat} (h : k ≤ infinity)
include h

theorem toNat_toBits_ofParts : (ofParts s k).toBits.toNat = signBits s + k :=
  toNat_pack_unpacked s h

theorem lt_signWeight_of_le_infinity : k < signWeight := Nat.lt_of_le_of_lt h (by decide)

theorem sign_ofParts : sign (ofParts s k) = s := by
  rw [sign, toNat_toBits_ofParts s h, signOfBits_add s (lt_signWeight_of_le_infinity h)]

theorem ordinal_ofParts : ordinal (ofParts s k) = k := by
  rw [ordinal, toNat_toBits_ofParts s h, signBits_add_mod s (lt_signWeight_of_le_infinity h)]

theorem ofOrdinal_add : ofOrdinal (signBits s + k) = ofParts s k := by
  have hlt := lt_signWeight_of_le_infinity h
  have hbits : signBits s + k < 2 ^ 64 := by
    cases s with
    | negative =>
      change signWeight + k < 2 * signWeight
      omega
    | positive =>
      change 0 + k < 2 * signWeight
      omega
  have hnat : (UInt64.ofNat (signBits s + k)).toBitVec.toNat = signBits s + k :=
    UInt64.toNat_ofNat_of_lt' hbits
  have hunpack := unpack_eq (UInt64.ofNat (signBits s + k)).toBitVec
  rw [hnat, signOfBits_add s hlt, signBits_add_mod s hlt] at hunpack
  unfold ofOrdinal Float.ofBits Float.Model.ofBits
  rw [hunpack]
  rfl

theorem ofOrdinal_eq : ofOrdinal k = ofParts .positive k := by
  rw [← ofOrdinal_add .positive h, signBits, Nat.zero_add]

end OfParts

theorem ofParts_sign_ordinal {x : Float} (h : ordinal x ≤ infinity) :
    ofParts (sign x) (ordinal x) = x :=
  eq_of_parts (sign_ofParts _ h) (ordinal_ofParts _ h)

theorem status_unpacked (s : Sign) (k : Nat) :
    ((unpacked s k).isNaN = true ↔ infinity < k) ∧ ((unpacked s k).isInf = true ↔ k = infinity) ∧
      ((unpacked s k).isFinite = true ↔ k < infinity) := by
  rcases kind_cases k with rfl | ⟨hpos, hlt⟩ | rfl | hlt
  · exact ⟨iff_of_false nofun (by decide), iff_of_false nofun (by decide),
      iff_of_true rfl (by decide)⟩
  · rw [unpacked_of_finite s hpos hlt]
    exact ⟨iff_of_false nofun (Nat.lt_asymm hlt), iff_of_false nofun (Nat.ne_of_lt hlt),
      iff_of_true rfl hlt⟩
  · exact ⟨iff_of_false nofun (by decide), iff_of_true rfl rfl, iff_of_false nofun (by decide)⟩
  · rw [unpacked_of_infinity_lt s hlt]
    exact ⟨iff_of_true rfl hlt, iff_of_false nofun (Nat.ne_of_gt hlt),
      iff_of_false nofun (Nat.lt_asymm hlt)⟩

section Kind

variable {x : Float}

theorem isNaN_iff : x.isNaN = true ↔ infinity < ordinal x := by
  change x.toModel.unpack.isNaN = true ↔ _
  rw [unpack_toModel]
  exact (status_unpacked _ _).1

theorem isInf_iff : x.isInf = true ↔ ordinal x = infinity := by
  change x.toModel.unpack.isInf = true ↔ _
  rw [unpack_toModel]
  exact (status_unpacked _ _).2.1

theorem isFinite_iff : x.isFinite = true ↔ ordinal x < infinity := by
  change x.toModel.unpack.isFinite = true ↔ _
  rw [unpack_toModel]
  exact (status_unpacked _ _).2.2

theorem isNaN_eq_false_iff : x.isNaN = false ↔ ordinal x ≤ infinity := by
  rw [← Bool.not_eq_true, isNaN_iff, Nat.not_lt]

theorem isNegative_iff : isNegative x = true ↔ sign x = .negative := by
  simp [isNegative, sign, signOfBits]

end Kind

end Bracketing.Double
