import Bracketing.Double.Nearest
import Mathlib.Data.Nat.Cast.Order.Field
import Mathlib.Data.Rat.Cast.Order
import Mathlib.Tactic.FieldSimp
import Mathlib.Tactic.Linarith
import Mathlib.Tactic.Positivity
import Mathlib.Tactic.Ring

/-!
What it is for a double to stand for a number. The numbers that it covers lie between the halves to
its neighbours, and halves go to the even significand. Every quotient is covered by the double that
it is rounded to, and by no other.
-/

namespace Bracketing.Double

attribute [local instance (2000)] instPowNat

/-- Whether `a` is below `b`. For an even number `k` the two may be equal. -/
def UpTo (k : Nat) (a b : ℚ) : Prop := a < b ∨ a = b ∧ k % 2 = 0

section UpTo

variable {j k : Nat} {a b c : ℚ}

theorem upTo_of_le (h : a ≤ b) (heven : k % 2 = 0) : UpTo k a b :=
  (lt_or_eq_of_le h).imp_right fun h => ⟨h, heven⟩

theorem UpTo.le (h : UpTo k a b) : a ≤ b := h.elim le_of_lt fun h => h.1.le

theorem UpTo.even (h : UpTo k a b) (h' : b ≤ a) : k % 2 = 0 :=
  h.elim (fun h => absurd h' (not_le_of_gt h)) And.right

theorem UpTo.trans_le (h : UpTo k a b) (h' : b ≤ c) : UpTo k a c := by
  rcases h with h | ⟨rfl, heven⟩
  · exact .inl (h.trans_le h')
  · exact (lt_or_eq_of_le h').imp_right fun h => ⟨h, heven⟩

theorem UpTo.of_le (h : a ≤ b) (h' : UpTo k b c) : UpTo k a c := by
  rcases h' with h' | ⟨rfl, heven⟩
  · exact .inl (h.trans_lt h')
  · exact (lt_or_eq_of_le h).imp_right fun h => ⟨h, heven⟩

theorem UpTo.div_right (h : UpTo k a b) (hc : 0 < c) : UpTo k (a / c) (b / c) :=
  h.imp (fun h => div_lt_div_of_pos_right h hc) fun h => ⟨by rw [h.1], h.2⟩

theorem UpTo.mul_right (h : UpTo k a b) (hc : 0 < c) : UpTo k (a * c) (b * c) :=
  h.imp (fun h => mul_lt_mul_of_pos_right h hc) fun h => ⟨by rw [h.1], h.2⟩

theorem UpTo.of_even (h : UpTo k a b) (hjk : k % 2 = 0 → j % 2 = 0) : UpTo j a b :=
  h.imp_right fun h => ⟨h.1, hjk h.2⟩

end UpTo

/-- The numbers, in units, for which the double `k` stands: those no further away than half way to
its neighbours. Half way itself counts for an even significand. -/
structure Covers (k : Nat) (q : ℚ) : Prop where
  le_infinity : k ≤ infinity
  above : ∀ j, j + 1 = k → UpTo k (units j + units k) (2 * q)
  below : k < infinity → UpTo k (2 * q) (units k + units (k + 1))

theorem cast_units_le {j k : Nat} (h : j ≤ k) : (units j : ℚ) ≤ units k := by
  rcases Nat.eq_or_lt_of_le h with rfl | h
  · exact le_rfl
  · exact_mod_cast (units_lt_units h).le

theorem cast_units_lt {j k : Nat} (h : j < k) : (units j : ℚ) < units k := by
  exact_mod_cast units_lt_units h

theorem Covers.le_of_le {j k : Nat} {p q : ℚ} (hj : Covers j p) (hk : Covers k q) (h : p ≤ q) :
    j ≤ k := by
  by_contra hlt
  obtain ⟨i, rfl⟩ : ∃ i, j = i + 1 := ⟨j - 1, by omega⟩
  have hki : k ≤ i := by omega
  have habove := hj.above i rfl
  have hbelow := hk.below (by have := hj.le_infinity; omega)
  have hunits := cast_units_le hki
  have hunits' := cast_units_le (Nat.succ_le_succ hki)
  have habove' := habove.le
  have hbelow' := hbelow.le
  have heven := habove.even (by linarith)
  have heven' := hbelow.even (by linarith)
  have hne : k ≠ i := by omega
  have := cast_units_lt (Nat.lt_of_le_of_ne hki hne)
  linarith

theorem Covers.unique {j k : Nat} {q : ℚ} (hj : Covers j q) (hk : Covers k q) : j = k :=
  Nat.le_antisymm (hj.le_of_le hk le_rfl) (hk.le_of_le hj le_rfl)

theorem covers_units {k : Nat} (h : k ≤ infinity) : Covers k (units k) where
  le_infinity := h
  above := by
    rintro j rfl
    have := cast_units_lt j.lt_succ_self
    exact .inl (by linarith)
  below := by
    intro _
    have := cast_units_lt k.lt_succ_self
    exact .inl (by linarith)

theorem upTo_abs_of_add_upTo {k : Nat} {x y q : ℚ} (hyx : y < x) (h : UpTo k (y + x) (2 * q)) :
    UpTo k |x - q| |y - q| := by
  have hle := h.le
  have hy : |y - q| = q - y := by
    rw [abs_of_nonpos (by linarith), neg_sub]
  rcases h with h | ⟨heq, heven⟩
  · refine .inl ?_
    rw [hy, abs_lt]
    constructor <;> linarith
  · refine .inr ⟨?_, heven⟩
    rw [hy, abs_of_nonneg (by linarith)]
    linarith

theorem upTo_abs_of_upTo_add {k : Nat} {x y q : ℚ} (hxy : x < y) (h : UpTo k (2 * q) (x + y)) :
    UpTo k |x - q| |y - q| := by
  have hle := h.le
  have hy : |y - q| = y - q := abs_of_nonneg (by linarith)
  rcases h with h | ⟨heq, heven⟩
  · refine .inl ?_
    rw [hy, abs_lt]
    constructor <;> linarith
  · refine .inr ⟨?_, heven⟩
    rw [hy, abs_of_nonpos (by linarith)]
    linarith

theorem Covers.upTo_abs {j k : Nat} {q : ℚ} (h : Covers k q) (hj : j ≤ infinity) (hne : j ≠ k) :
    UpTo k |(units k : ℚ) - q| |(units j : ℚ) - q| := by
  rcases Nat.lt_or_gt_of_ne hne with hlt | hgt
  · obtain ⟨i, rfl⟩ : ∃ i, k = i + 1 := ⟨k - 1, by omega⟩
    apply upTo_abs_of_add_upTo (cast_units_lt hlt)
    refine (h.above i rfl).of_le ?_
    have := cast_units_le (Nat.le_of_lt_succ hlt)
    linarith
  · apply upTo_abs_of_upTo_add (cast_units_lt hgt)
    refine (h.below (Nat.lt_of_lt_of_le hgt hj)).trans_le ?_
    have := cast_units_le (Nat.succ_le_of_lt hgt)
    linarith

section Nearest

theorem upTo_roundDiv (n : Nat) {d : Nat} (hd : 0 < d) :
    UpTo (roundDiv n d) ((2 * roundDiv n d - 1) * d) (2 * n) ∧
      UpTo (roundDiv n d) (2 * n) ((2 * roundDiv n d + 1) * d) := by
  have hn : (n : ℚ) = d * (n / d : Nat) + (n % d : Nat) := by
    exact_mod_cast (Nat.div_add_mod n d).symm
  have hmod : ((n % d : Nat) : ℚ) < d := by exact_mod_cast Nat.mod_lt n hd
  have hmod0 : (0 : ℚ) ≤ (n % d : Nat) := Nat.cast_nonneg _
  have hd' : (0 : ℚ) < d := by exact_mod_cast hd
  unfold roundDiv
  generalize (n / d : Nat) = q at *
  split
  case h_1 h =>
    have hlt : 2 * ((n % d : Nat) : ℚ) < d := by exact_mod_cast Nat.compare_eq_lt.1 h
    constructor <;> refine .inl ?_ <;> linarith
  case h_2 h =>
    have heq : 2 * ((n % d : Nat) : ℚ) = d := by exact_mod_cast Nat.compare_eq_eq.1 h
    rcases Nat.mod_two_eq_zero_or_one q with hq | hq
    · rw [hq, Nat.add_zero]
      refine ⟨.inl ?_, .inr ⟨?_, hq⟩⟩ <;> linarith
    · rw [hq]
      push_cast
      refine ⟨.inr ⟨?_, by omega⟩, .inl ?_⟩ <;> linarith
  case h_3 h =>
    have hgt : (d : ℚ) < 2 * ((n % d : Nat) : ℚ) := by exact_mod_cast Nat.compare_eq_gt.1 h
    push_cast
    constructor <;> refine .inl ?_ <;> linarith

theorem exponent_add_mul {s e : Nat} (hs : s < 2 * binade) (h : e = 0 ∨ binade ≤ s) :
    exponent (s + e * binade) = e := by
  unfold exponent binade at *
  omega

theorem units_add_mul {s e : Nat} (hs : s ≤ 2 * binade) (h : e = 0 ∨ binade ≤ s) :
    units (s + e * binade) = s * 2 ^ e := by
  rcases Nat.eq_or_lt_of_le hs with rfl | hs
  · have hexponent : exponent (2 * binade + e * binade) = e + 1 := by
      unfold exponent binade
      omega
    have hsignificand : significand (2 * binade + e * binade) = binade := by
      unfold significand
      rw [hexponent]
      unfold binade
      omega
    rw [units, hexponent, hsignificand, Nat.pow_succ, Nat.mul_comm (2 ^ e) 2, ← Nat.mul_assoc,
      Nat.mul_comm binade 2]
  · rw [units, significand, exponent_add_mul hs h, Nat.add_sub_cancel]

theorem cast_units_add_mul {s e : Nat} (hs : s ≤ 2 * binade) (h : e = 0 ∨ binade ≤ s) :
    (units (s + e * binade) : ℚ) = s * 2 ^ e := by
  rw [units_add_mul hs h]
  push_cast
  rfl

theorem le_exponent_add_mul {s e : Nat} (h : e = 0 ∨ binade ≤ s) :
    e ≤ exponent (s + e * binade) := by
  unfold exponent binade at *
  omega

theorem cast_units_succ (k : Nat) : (units (k + 1) : ℚ) = units k + 2 ^ exponent k := by
  rw [units_succ]
  push_cast
  rfl

theorem two_pow_le_two_pow {j k : Nat} (h : j ≤ k) : (2 : ℚ) ^ j ≤ 2 ^ k :=
  pow_le_pow_right₀ one_le_two h

/-- To round to a multiple of the power of two that suits the size is to round to a double. -/
theorem covers_of_upTo {s e : Nat} {q : ℚ} (hs : s ≤ 2 * binade) (h : e = 0 ∨ binade ≤ s)
    (hfloor : 0 < e → binade * 2 ^ e ≤ q) (hlow : UpTo s ((2 * s - 1) * 2 ^ e) (2 * q))
    (hhigh : UpTo s (2 * q) ((2 * s + 1) * 2 ^ e)) :
    Covers (min infinity (s + e * binade)) q := by
  have hparity : s % 2 = 0 → (s + e * binade) % 2 = 0 := by
    unfold binade
    omega
  have hunits := cast_units_add_mul hs h
  have habove : ∀ j, j + 1 = s + e * binade →
      UpTo (s + e * binade) (units j + units (s + e * binade)) (2 * q) := by
    intro j hj
    have hsucc := cast_units_succ j
    rw [hj, hunits] at hsucc
    by_cases he : e ≤ exponent j
    · refine (hlow.of_even hparity).of_le ?_
      have := two_pow_le_two_pow he
      rw [hunits]
      linarith
    · -- Only below the first double with its exponent do the doubles stand closer.
      have hbinade : s = binade := by
        unfold exponent binade at *
        omega
      subst hbinade
      have := hfloor (by omega)
      have hpow : (0 : ℚ) < 2 ^ exponent j := by positivity
      rw [hunits]
      exact .inl (by linarith)
  have hbelow : UpTo (s + e * binade) (2 * q)
      (units (s + e * binade) + units (s + e * binade + 1)) := by
    refine (hhigh.of_even hparity).trans_le ?_
    have := two_pow_le_two_pow (le_exponent_add_mul h)
    rw [cast_units_succ, hunits]
    linarith
  rcases Nat.lt_or_ge infinity (s + e * binade) with hlt | hle
  · rw [Nat.min_eq_left hlt.le]
    refine ⟨le_rfl, fun j hj => .inl ?_, fun h => absurd h (lt_irrefl _)⟩
    obtain ⟨i, hi⟩ : ∃ i, i + 1 = s + e * binade := ⟨s + e * binade - 1, by omega⟩
    have hle := (habove i hi).le
    have hj' := cast_units_lt (show j < i by omega)
    have hk' := cast_units_le hlt.le
    linarith
  · rw [Nat.min_eq_right hle]
    exact ⟨hle, habove, fun _ => hbelow⟩

theorem div_le_roundDiv (n d : Nat) : n / d ≤ roundDiv n d := by
  unfold roundDiv
  split <;> omega

theorem roundDiv_le (n d : Nat) : roundDiv n d ≤ n / d + 1 := by
  unfold roundDiv
  split <;> omega

theorem div_two_pow_lt {m k : Nat} (h : m.log2 ≤ 52 + k) : m / 2 ^ k < 2 * binade := by
  rw [Nat.div_lt_iff_lt_mul (Nat.two_pow_pos k)]
  calc m < 2 ^ (m.log2 + 1) := Nat.lt_log2_self
    _ ≤ 2 ^ (53 + k) := Nat.pow_le_pow_right Nat.two_pos (by omega)
    _ = 2 * binade * 2 ^ k := Nat.pow_add 2 53 k

theorem binade_mul_two_pow_le {m k : Nat} (h : 52 + k ≤ m.log2) : binade * 2 ^ k ≤ m := by
  have hne : m ≠ 0 := by
    rintro rfl
    rw [Nat.log2_zero] at h
    omega
  calc binade * 2 ^ k = 2 ^ (52 + k) := (Nat.pow_add 2 52 k).symm
    _ ≤ m := (Nat.le_log2 hne).1 h

theorem covers_nearest (n : Nat) {d : Nat} (hd : 0 < d) : Covers (nearest n d) (n / d) := by
  have hd' : (0 : ℚ) < d := by exact_mod_cast hd
  unfold nearest
  generalize he : (n / d).log2 - 52 = e
  have hquotient : n / (d * 2 ^ e) = n / d / 2 ^ e := (Nat.div_div_eq_div_mul n d (2 ^ e)).symm
  have hlt : n / (d * 2 ^ e) < 2 * binade := by
    rw [hquotient]
    exact div_two_pow_lt (by omega)
  have hfloor : 0 < e → binade * 2 ^ e ≤ n / d := fun hpos => binade_mul_two_pow_le (by omega)
  have hs := roundDiv_le n (d * 2 ^ e)
  have hs' := div_le_roundDiv n (d * 2 ^ e)
  obtain ⟨hlow, hhigh⟩ := upTo_roundDiv n (Nat.mul_pos hd (Nat.two_pow_pos e))
  apply covers_of_upTo (by omega)
  · rcases Nat.eq_zero_or_pos e with h0 | hpos
    · exact .inl h0
    · refine .inr (Nat.le_trans ?_ hs')
      rw [hquotient, Nat.le_div_iff_mul_le (Nat.two_pow_pos e)]
      exact hfloor hpos
  · intro hpos
    calc (binade : ℚ) * 2 ^ e = ((binade * 2 ^ e : Nat) : ℚ) := by push_cast; rfl
      _ ≤ (n / d : Nat) := by exact_mod_cast hfloor hpos
      _ ≤ n / d := Nat.cast_div_le
  · convert hlow.div_right hd' using 1
    · push_cast
      field_simp
    · ring
  · convert hhigh.div_right hd' using 1
    · ring
    · push_cast
      field_simp

end Nearest

end Bracketing.Double
