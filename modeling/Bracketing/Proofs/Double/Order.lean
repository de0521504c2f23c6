import Bracketing.Proofs.Double.Parts

namespace Bracketing.Double

open Float.Model (UnpackedFloat)

theorem lt_of_exponent_lt {j k : Nat} (h : exponent j < exponent k) : j < k := by
  unfold exponent binade at h
  omega

theorem compare_significand {j k : Nat} (h : exponent j = exponent k) :
    compare (significand j) (significand k) = compare j k := by
  have hj := significand_add j
  have hk := significand_add k
  rw [h] at hj
  rcases Nat.lt_trichotomy (significand j) (significand k) with hlt | heq | hgt
  · rw [Nat.compare_eq_lt.2 hlt, Nat.compare_eq_lt.2 (by omega)]
  · rw [Nat.compare_eq_eq.2 heq, Nat.compare_eq_eq.2 (by omega)]
  · rw [Nat.compare_eq_gt.2 hgt, Nat.compare_eq_gt.2 (by omega)]

theorem compare_exponent_then (j k : Nat) :
    (compare ((exponent j : Int) - unitExponent) ((exponent k : Int) - unitExponent)).then
      (compare (significand j) (significand k)) = compare j k := by
  rcases Nat.lt_trichotomy (exponent j) (exponent k) with hlt | heq | hgt
  · rw [Int.compare_eq_lt.2 (by omega), Nat.compare_eq_lt.2 (lt_of_exponent_lt hlt)]
    rfl
  · rw [Int.compare_eq_eq.2 (by omega), compare_significand heq]
    rfl
  · rw [Int.compare_eq_gt.2 (by omega), Nat.compare_eq_gt.2 (lt_of_exponent_lt hgt)]
    rfl

theorem compare_unpacked {j k : Nat} (hj : j ≤ infinity) (hk : k ≤ infinity) :
    (unpacked .positive j).compare (unpacked .positive k) = some (compare j k) := by
  rcases kind_cases j with rfl | ⟨hj0, hj'⟩ | rfl | hj'
  · rcases kind_cases k with rfl | ⟨hk0, hk'⟩ | rfl | hk'
    · rfl
    · rw [unpacked_zero, unpacked_of_finite _ hk0 hk', Nat.compare_eq_lt.2 hk0]
      rfl
    · rfl
    · exact absurd hk' (Nat.not_lt.2 hk)
  · rcases kind_cases k with rfl | ⟨hk0, hk'⟩ | rfl | hk'
    · rw [unpacked_zero, unpacked_of_finite _ hj0 hj', Nat.compare_eq_gt.2 hj0]
      rfl
    · rw [unpacked_of_finite _ hj0 hj', unpacked_of_finite _ hk0 hk', ← compare_exponent_then j k]
      rfl
    · rw [unpacked_infinity, unpacked_of_finite _ hj0 hj', Nat.compare_eq_lt.2 hj']
      rfl
    · exact absurd hk' (Nat.not_lt.2 hk)
  · rcases kind_cases k with rfl | ⟨hk0, hk'⟩ | rfl | hk'
    · rfl
    · rw [unpacked_infinity, unpacked_of_finite _ hk0 hk', Nat.compare_eq_gt.2 hk']
      rfl
    · rfl
    · exact absurd hk' (Nat.not_lt.2 hk)
  · exact absurd hj' (Nat.not_lt.2 hj)

theorem ofParts_le_iff {j k : Nat} (hj : j ≤ infinity) (hk : k ≤ infinity) :
    ofParts .positive j ≤ ofParts .positive k ↔ j ≤ k := by
  have hle : ∀ x y : Float, x ≤ y ↔
      (x.toModel.unpack.compare y.toModel.unpack).any (·.isLE) = true := by
    intro x y
    change decide (x.toModel ≤ y.toModel) = true ↔ _
    rw [decide_eq_true_iff]
    rfl
  rw [hle, unpack_toModel, unpack_toModel, sign_ofParts _ hj, ordinal_ofParts _ hj,
    sign_ofParts _ hk, ordinal_ofParts _ hk, compare_unpacked hj hk, Option.any_some,
    Nat.isLE_compare]

end Bracketing.Double
