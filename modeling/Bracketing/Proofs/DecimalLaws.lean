import Bracketing.Decimal.Shortest
import Bracketing.Operand
import Bracketing.Proofs.Double.Value
import Mathlib.Data.List.TakeWhile

namespace Bracketing

namespace Operand

theorem isNumeral_iff {cs : List Char} :
    isNumeral cs = true ↔ cs ≠ [] ∧ ∀ c ∈ cs, c.isDigit = true := by
  simp [isNumeral]

theorem number_replicate_append (n : Nat) (cs : List Char) :
    number (List.replicate n '0' ++ cs) = number cs := by
  rw [number, Nat.ofDigitChars_append, Nat.ofDigitChars_replicate_zero, Nat.mul_zero, number]

theorem number_toDigits (n : Nat) : number (Nat.toDigits 10 n) = n := Nat.ofDigitChars_ten_toDigits

theorem isDigit_of_mem_toDigits {n : Nat} {c : Char} (h : c ∈ Nat.toDigits 10 n) :
    c.isDigit = true :=
  Nat.isDigit_of_mem_toDigits (by decide) (by decide) h

theorem isNumeral_toDigits (n : Nat) : isNumeral (Nat.toDigits 10 n) = true :=
  isNumeral_iff.2 ⟨Nat.toDigits_ne_nil, fun _ hc => isDigit_of_mem_toDigits hc⟩

end Operand

namespace Decimal

open Double (Covers UpTo infinity unitExponent units)

attribute [local instance (2000)] instPowNat

def toRat (d : Decimal) : ℚ := d.digits / 10 ^ d.places

theorem toRat_nonneg (d : Decimal) : 0 ≤ d.toRat := by
  unfold toRat
  positivity

theorem covers_nearest (d : Decimal) : Covers d.nearest (d.toRat * 2 ^ unitExponent) := by
  have hpos : 0 < 10 ^ d.places := Nat.pow_pos (Nat.succ_pos 9)
  have h := Double.covers_nearest (d.digits * 2 ^ unitExponent) hpos
  simp only [Nat.cast_mul, Nat.cast_pow, Nat.cast_ofNat] at h
  rw [nearest, toRat, div_mul_eq_mul_div]
  exact h

theorem nearest_eq_of_covers {d : Decimal} {k : Nat} (h : Covers k (d.toRat * 2 ^ unitExponent)) :
    d.nearest = k :=
  d.covers_nearest.unique h

theorem roundsTo_nearest (d : Decimal) (s : Float.Model.UnpackedFloat.Sign) :
    Double.RoundsTo (Double.signed s d.toRat) (Double.ofParts s d.nearest) :=
  d.covers_nearest.roundsTo d.toRat_nonneg s

section ReadsBack

variable {k n : Nat}

theorem cast_tens (k : Nat) : (tens k : ℚ) = units k * 5 ^ unitExponent := by
  rw [tens, Nat.cast_mul, Nat.cast_pow, Nat.cast_ofNat]

theorem readsBack_iff : readsBack k n = true ↔
    UpTo k (tens (k - 1) + tens k) (2 * n) ∧ UpTo k (2 * n) (tens k + tens (k + 1)) := by
  unfold readsBack UpTo
  rw [Double.significand_mod_two]
  simp only
  generalize tens (k - 1) = a
  generalize tens k = b
  generalize tens (k + 1) = c
  split
  case isTrue h =>
    simp only [Bool.and_eq_true, decide_eq_true_eq, h, and_true, ← le_iff_lt_or_eq]
    norm_cast
  case isFalse h =>
    simp only [Bool.and_eq_true, decide_eq_true_eq, h, and_false, or_false]
    norm_cast

theorem covers_of_readsBack (hk : k ≤ infinity) (h : readsBack k n = true) :
    Covers k (n / 5 ^ unitExponent) := by
  have hpow : (0 : ℚ) < 5 ^ unitExponent := by positivity
  obtain ⟨hlow, hhigh⟩ := readsBack_iff.1 h
  have hlow := hlow.div_right hpow
  have hhigh := hhigh.div_right hpow
  simp only [cast_tens, ← add_mul, mul_div_cancel_right₀ _ hpow.ne', mul_div_assoc] at hlow hhigh
  refine ⟨hk, ?_, fun _ => hhigh⟩
  rintro j rfl
  exact hlow

theorem readsBack_tens (hk : 0 < k) : readsBack k (tens k) = true := by
  have hpow : (0 : ℚ) < 5 ^ unitExponent := by positivity
  have hlow := mul_lt_mul_of_pos_right (Double.cast_units_lt (Nat.sub_lt hk Nat.one_pos)) hpow
  have hhigh := mul_lt_mul_of_pos_right (Double.cast_units_lt k.lt_succ_self) hpow
  rw [← cast_tens, ← cast_tens] at hlow hhigh
  exact readsBack_iff.2 ⟨.inl (by linarith), .inl (by linarith)⟩

theorem readsBack_of_onGrid? {step m : Nat} (h : onGrid? k step = some m) :
    readsBack k (m * step) = true := by
  unfold onGrid? at h
  simp only at h
  split at h
  case isTrue hbelow =>
    split at h
    case isTrue hboth =>
      rw [Bool.and_eq_true] at hboth
      rw [← Option.some.inj h]
      exact hboth.1
    case isFalse =>
      rw [← Option.some.inj h]
      exact hbelow
  case isFalse =>
    split at h
    case isTrue habove =>
      rw [← Option.some.inj h]
      exact habove
    case isFalse => cases h

theorem firstHit_induction {hit? : Nat → Option Nat} {finest : Nat} {P : Nat → Nat → Prop}
    (hfinest : P finest 0) (hhit : ∀ g m, hit? g = some m → P m g) (g : Nat) :
    P (firstHit hit? finest g).1 (firstHit hit? finest g).2 := by
  induction g with
  | zero => exact hfinest
  | succ g ih =>
    rw [firstHit]
    cases h : hit? (g + 1) with
    | none => exact ih
    | some m => exact hhit (g + 1) m h

theorem readsBack_mul_one (h : readsBack k n = true) : readsBack k (n * 10 ^ 0) = true := by
  rw [Nat.pow_zero, Nat.mul_one]
  exact h

theorem readsBack_coarsest (hk : 0 < k) (g : Nat) :
    readsBack k ((coarsest k g).1 * 10 ^ (coarsest k g).2) = true :=
  firstHit_induction (P := fun m g => readsBack k (m * 10 ^ g) = true)
    (readsBack_mul_one (readsBack_tens hk)) (fun _ _ h => readsBack_of_onGrid? h) g

end ReadsBack

theorem toRat_of_grid (m g : Nat) :
    toRat ⟨m * 10 ^ (g - unitExponent), unitExponent - g⟩ * 2 ^ unitExponent =
      (m * 10 ^ g : Nat) / 5 ^ unitExponent := by
  generalize unitExponent = u
  have hpow : (10 : ℚ) ^ (g - u) * (2 ^ u * 5 ^ u) = 10 ^ g * 10 ^ (u - g) := by
    have hg : g - u + u = g + (u - g) := by omega
    rw [← mul_pow, show (2 : ℚ) * 5 = 10 by norm_num, ← pow_add, ← pow_add, hg]
  rw [toRat, div_mul_eq_mul_div, div_eq_div_iff (by positivity) (by positivity)]
  push_cast
  calc (m : ℚ) * 10 ^ (g - u) * 2 ^ u * 5 ^ u
      = m * (10 ^ (g - u) * (2 ^ u * 5 ^ u)) := by ring
    _ = m * 10 ^ g * 10 ^ (u - g) := by rw [hpow, mul_assoc]

theorem covers_shortest {k : Nat} (h : k ≤ infinity) :
    Covers k ((shortest k).toRat * 2 ^ unitExponent) := by
  unfold shortest
  split
  case isTrue hzero =>
    rw [hzero]
    convert Double.covers_units (Nat.zero_le infinity) using 1
    simp [toRat]
  case isFalse hpos =>
    rw [toRat_of_grid]
    exact covers_of_readsBack h (readsBack_coarsest (Nat.pos_of_ne_zero hpos) _)

theorem nearest_shortest {k : Nat} (h : k ≤ infinity) : (shortest k).nearest = k :=
  nearest_eq_of_covers (covers_shortest h)

section Reading

open Operand (isNumeral number isNumeral_iff isNumeral_toDigits)

/-- The decimal that a numeral spells, with one point in it or none. -/
def ofChars? (cs : List Char) : Option Decimal :=
  let whole := cs.takeWhile (· != '.')
  match cs.dropWhile (· != '.') with
  | [] => if isNumeral whole then some ⟨number whole, 0⟩ else none
  | _ :: places =>
    if isNumeral whole && isNumeral places then some ⟨number (whole ++ places), places.length⟩
    else none

theorem bne_point_of_isDigit {c : Char} (h : c.isDigit = true) : (c != '.') = true := by
  rw [bne_iff_ne]
  rintro rfl
  cases h

theorem ofChars?_of_whole {cs : List Char} (h : isNumeral cs = true) :
    ofChars? cs = some ⟨number cs, 0⟩ := by
  have hpoint : ∀ c ∈ cs, (c != '.') = true :=
    fun c hc => bne_point_of_isDigit ((isNumeral_iff.1 h).2 c hc)
  rw [ofChars?]
  simp only [List.takeWhile_eq_self_iff.2 hpoint, List.dropWhile_eq_nil_iff.2 hpoint, h, if_true]

theorem ofChars?_of_point {whole places : List Char} (hwhole : isNumeral whole = true)
    (hplaces : isNumeral places = true) :
    ofChars? (whole ++ '.' :: places) = some ⟨number (whole ++ places), places.length⟩ := by
  have hpoint : ∀ c ∈ whole, (c != '.') = true :=
    fun c hc => bne_point_of_isDigit ((isNumeral_iff.1 hwhole).2 c hc)
  have htake : (whole ++ '.' :: places).takeWhile (· != '.') = whole := by
    rw [List.takeWhile_append_of_pos hpoint]
    simp
  have hdrop : (whole ++ '.' :: places).dropWhile (· != '.') = '.' :: places := by
    rw [List.dropWhile_append_of_pos hpoint]
    simp
  rw [ofChars?]
  simp only [htake, hdrop, hwhole, hplaces, Bool.and_self, if_true]

theorem ofChars?_chars (d : Decimal) : ofChars? d.chars = some d := by
  unfold chars
  split
  case isTrue h =>
    rw [ofChars?_of_whole (isNumeral_toDigits _), Operand.number_toDigits, ← h]
  case isFalse h =>
    generalize hcs : (Nat.toDigits 10 d.digits).leftpad (d.places + 1) '0' = cs
    have hdigit : ∀ c ∈ cs, c.isDigit = true := by
      intro c hc
      rw [← hcs, List.leftpad, List.mem_append] at hc
      rcases hc with hzero | hc
      · rw [(List.mem_replicate.1 hzero).2]
        rfl
      · exact Operand.isDigit_of_mem_toDigits hc
    have hlen : d.places < cs.length := by
      rw [← hcs, List.leftpad, List.length_append, List.length_replicate]
      omega
    have hnumber : number cs = d.digits := by
      rw [← hcs, List.leftpad, Operand.number_replicate_append,
        Operand.number_toDigits]
    have hplaces : (cs.drop (cs.length - d.places)).length = d.places := by
      rw [List.length_drop]
      omega
    simp only
    rw [ofChars?_of_point (isNumeral_iff.2 ⟨?_, fun c hc => hdigit c (List.mem_of_mem_take hc)⟩)
      (isNumeral_iff.2 ⟨?_, fun c hc => hdigit c (List.mem_of_mem_drop hc)⟩),
      List.take_append_drop, hnumber, hplaces]
    · rw [← List.length_pos_iff, List.length_take]
      omega
    · rw [← List.length_pos_iff, hplaces]
      omega

end Reading

end Decimal

end Bracketing
