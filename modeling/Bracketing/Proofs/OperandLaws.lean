import Bracketing.Proofs.DecimalLaws
import Bracketing.Proofs.Double.Order

namespace Bracketing

namespace Double

attribute [local instance (2000)] instPowNat

theorem exists_units_eq {n : Nat} (h : n ≤ 2 ^ 53) :
    ∃ k, k < infinity ∧ units k = n * 2 ^ unitExponent := by
  rcases Nat.eq_zero_or_pos n with rfl | hpos
  · exact ⟨0, by decide, by rw [units_zero, Nat.zero_mul]⟩
  have hlow : 2 ^ n.log2 ≤ n := Nat.log2_self_le hpos.ne'
  have hhigh : n < 2 ^ (n.log2 + 1) := Nat.lt_log2_self
  generalize n.log2 = l at *
  have hl : l ≤ 53 := (Nat.pow_le_pow_iff_right Nat.one_lt_two).1 (hlow.trans h)
  have hshift : n * 2 ^ (52 - l) ≤ 2 * binade := by
    rcases Nat.lt_or_ge 52 l with hlt | hle
    · rw [Nat.sub_eq_zero_of_le hlt.le, Nat.pow_zero, Nat.mul_one]
      exact h
    · calc n * 2 ^ (52 - l) ≤ 2 ^ (l + 1) * 2 ^ (52 - l) := Nat.mul_le_mul_right _ hhigh.le
        _ = 2 ^ 53 := by rw [← Nat.pow_add, show l + 1 + (52 - l) = 53 by omega]
  have hbinade : binade ≤ n * 2 ^ (52 - l) :=
    calc binade = 2 ^ 52 := rfl
      _ ≤ 2 ^ (l + (52 - l)) := Nat.pow_le_pow_right Nat.two_pos (by omega)
      _ = 2 ^ l * 2 ^ (52 - l) := Nat.pow_add 2 l (52 - l)
      _ ≤ n * 2 ^ (52 - l) := Nat.mul_le_mul_right _ hlow
  refine ⟨n * 2 ^ (52 - l) + (unitExponent - (52 - l)) * binade, ?_, ?_⟩
  · have he : unitExponent - (52 - l) ≤ 1074 := Nat.sub_le _ _
    unfold infinity binade at *
    omega
  · have hexponent : 52 - l + (unitExponent - (52 - l)) = unitExponent := by
      unfold unitExponent
      omega
    rw [units_add_mul hshift (.inr hbinade), Nat.mul_assoc, ← Nat.pow_add, hexponent]

end Double

namespace Operand

open Double (Covers RoundsTo ofParts)

theorem toRat_whole (n : Nat) : Decimal.toRat ⟨n, 0⟩ = n := by simp [Decimal.toRat]

theorem value_eq (cs : List Char) :
    value cs = ofParts .positive (Decimal.nearest ⟨number cs, 0⟩) :=
  Double.ofOrdinal_eq (Decimal.covers_nearest _).le_infinity

theorem covers_number (cs : List Char) :
    Covers (Decimal.nearest ⟨number cs, 0⟩) (number cs * 2 ^ Double.unitExponent) := by
  rw [← toRat_whole]
  exact Decimal.covers_nearest _

structure Spells (cs : List Char) (x : Float) : Prop where
  roundsTo : RoundsTo (number cs) x
  isInf_iff : x.isInf = true ↔ Double.overflow ≤ number cs
  exact_of_le : number cs ≤ 2 ^ 53 → x.isFinite = true ∧ Double.toRat x = number cs
  not_isNaN : x.isNaN = false
  not_isNegative : Double.isNegative x = false

theorem ordinal_value (cs : List Char) :
    Double.ordinal (value cs) = Decimal.nearest ⟨number cs, 0⟩ := by
  rw [value_eq, Double.ordinal_ofParts _ (covers_number cs).le_infinity]

theorem sign_value (cs : List Char) : Double.sign (value cs) = .positive := by
  rw [value_eq, Double.sign_ofParts _ (covers_number cs).le_infinity]

theorem roundsTo_value (cs : List Char) : RoundsTo (number cs) (value cs) := by
  rw [value_eq]
  exact (covers_number cs).roundsTo (Nat.cast_nonneg _) .positive

theorem toRat_value_of_le {cs : List Char} (h : number cs ≤ 2 ^ 53) :
    (value cs).isFinite = true ∧ Double.toRat (value cs) = number cs := by
  obtain ⟨k, hk, hunits⟩ := Double.exists_units_eq h
  have hmagnitude : Double.magnitude k = number cs := by
    rw [Double.magnitude, hunits, Nat.cast_mul, Nat.cast_pow, Nat.cast_ofNat,
      mul_div_cancel_right₀ _ Double.two_pow_unitExponent_pos.ne']
  have hordinal : Double.ordinal (value cs) = k := by
    have hcovers := Double.covers_units hk.le
    rw [Double.cast_units, hmagnitude] at hcovers
    rw [ordinal_value, (covers_number cs).unique hcovers]
  constructor
  · rw [Double.isFinite_iff, hordinal]
    exact hk
  · rw [Double.toRat, hordinal, sign_value, hmagnitude, Double.signed]

theorem spells_value (cs : List Char) : Spells cs (value cs) where
  roundsTo := roundsTo_value cs
  isInf_iff := by
    rw [Double.isInf_iff, ordinal_value]
    exact (covers_number cs).eq_infinity_iff
  exact_of_le := toRat_value_of_le
  not_isNaN := by
    rw [Double.isNaN_eq_false_iff, ordinal_value]
    exact (covers_number cs).le_infinity
  not_isNegative := by
    rw [← Bool.not_eq_true, Double.isNegative_iff, sign_value]
    exact nofun

theorem value_replicate_append (n : Nat) (cs : List Char) :
    value (List.replicate n '0' ++ cs) = value cs := by
  rw [value, number_replicate_append, value]

theorem value_le_value {cs cs' : List Char} (h : number cs ≤ number cs') :
    value cs ≤ value cs' := by
  have hcovers := covers_number cs
  have hcovers' := covers_number cs'
  rw [value_eq, value_eq, Double.ofParts_le_iff hcovers.le_infinity hcovers'.le_infinity]
  refine hcovers.le_of_le hcovers' ?_
  have hcast : (number cs : ℚ) ≤ number cs' := by exact_mod_cast h
  exact mul_le_mul_of_nonneg_right hcast Double.two_pow_unitExponent_pos.le

theorem read_eq_ok_iff {text : String} {x : Float} :
    read text = .ok x ↔ isNumeral text.toList = true ∧ value text.toList = x := by
  by_cases h : isNumeral text.toList = true
  · simp [read_of_isNumeral h, h]
  · simp [read_of_not_isNumeral h, h]

theorem read_eq_error_iff {text : String} {fault : Fault} :
    read text = .error fault ↔
      fault = .operand text ∧ (text = "" ∨ ∃ c ∈ text.toList, c.isDigit = false) := by
  have hnumeral : isNumeral text.toList = true ↔
      ¬ (text = "" ∨ ∃ c ∈ text.toList, c.isDigit = false) := by
    simp [isNumeral_iff]
  by_cases h : isNumeral text.toList = true
  · simp [read_of_isNumeral h, hnumeral.1 h]
  · rw [read_of_not_isNumeral h, Except.error.injEq, eq_comm]
    exact (and_iff_left (not_not.1 (mt hnumeral.2 h))).symm

theorem isNumeral_replicate_append (n : Nat) {cs : List Char} (h : isNumeral cs = true) :
    isNumeral (List.replicate n '0' ++ cs) = true := by
  obtain ⟨hne, hdigit⟩ := isNumeral_iff.1 h
  refine isNumeral_iff.2 ⟨List.append_ne_nil_of_right_ne_nil _ hne, fun c hc => ?_⟩
  rcases List.mem_append.1 hc with hzero | hc
  · rw [(List.mem_replicate.1 hzero).2]
    rfl
  · exact hdigit c hc

theorem read_tells (text : String) :
    (∀ fault, read text = .error fault ↔
      fault = .operand text ∧ (text = "" ∨ ∃ c ∈ text.toList, c.isDigit = false)) ∧
    (text ≠ "" → (∀ c ∈ text.toList, c.isDigit = true) →
      ∃ x, read text = .ok x ∧ Spells text.toList x ∧
        (∀ n, read (String.ofList (List.replicate n '0' ++ text.toList)) = .ok x) ∧
        ∀ text' x', read text' = .ok x' → number text.toList ≤ number text'.toList → x ≤ x') := by
  refine ⟨fun fault => read_eq_error_iff, fun hne hdigit => ?_⟩
  have hnumeral : isNumeral text.toList = true := isNumeral_iff.2 ⟨by simpa using hne, hdigit⟩
  refine ⟨value text.toList, read_of_isNumeral hnumeral, spells_value _, fun n => ?_, ?_⟩
  · rw [read_eq_ok_iff, String.toList_ofList, value_replicate_append]
    exact ⟨isNumeral_replicate_append n hnumeral, rfl⟩
  · intro text' x' hread hle
    obtain ⟨-, rfl⟩ := read_eq_ok_iff.1 hread
    exact value_le_value hle

theorem read_tells_half_way :
    "9007199254740993" ≠ "" ∧ (∀ c ∈ "9007199254740993".toList, c.isDigit = true) ∧
      ∃ x, read "9007199254740993" = .ok x ∧ read "0009007199254740993" = .ok x ∧
        RoundsTo 9007199254740993 x := by
  have hne : "9007199254740993" ≠ "" := by decide
  have hdigit : ∀ c ∈ "9007199254740993".toList, c.isDigit = true :=
    List.all_eq_true.1 (by decide)
  have hnumber : number "9007199254740993".toList = 9007199254740993 := by decide +kernel
  have hzeros : String.ofList (List.replicate 3 '0' ++ "9007199254740993".toList) =
      "0009007199254740993" := by decide
  obtain ⟨x, hread, hspells, hleading, -⟩ := (read_tells "9007199254740993").2 hne hdigit
  have hrounds := hspells.roundsTo
  rw [hnumber] at hrounds
  exact ⟨hne, hdigit, x, hread, hzeros ▸ hleading 3, hrounds⟩

end Operand

end Bracketing
