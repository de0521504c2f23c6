import Bracketing.Catalan
import Mathlib.Combinatorics.Enumerative.Catalan.Basic

/-!
The walk from one Catalan number to the next by their ratio, held against their definition as sums of
products. Once its common factor with the count is taken out, the divisor has to divide the numerator
alone: no division leaves anything over, and nothing in front of the product is large.
-/

namespace Bracketing

attribute [local instance (2000)] instPowNat

theorem succ_mul_catalan_succ (k : Nat) :
    (k + 2) * catalan (k + 1) = 2 * (2 * k + 1) * catalan k := by
  apply Nat.eq_of_mul_eq_mul_left (Nat.succ_pos k)
  calc (k + 1) * ((k + 2) * catalan (k + 1))
      = (k + 1) * (k + 1).centralBinom := by rw [← succ_mul_catalan_eq_centralBinom (k + 1)]
    _ = 2 * (2 * k + 1) * k.centralBinom := Nat.succ_mul_centralBinom_succ k
    _ = (k + 1) * (2 * (2 * k + 1) * catalan k) := by
        rw [← succ_mul_catalan_eq_centralBinom k, Nat.mul_left_comm]

theorem two_mul_catalan_le (k : Nat) : 2 * catalan (k + 1) ≤ catalan (k + 1 + 1) := by
  apply Nat.le_of_mul_le_mul_left _ (Nat.succ_pos (k + 2))
  calc (k + 3) * (2 * catalan (k + 1)) = 2 * (k + 3) * catalan (k + 1) := by
        rw [Nat.mul_left_comm, Nat.mul_assoc]
    _ ≤ 2 * (2 * (k + 1) + 1) * catalan (k + 1) := Nat.mul_le_mul_right _ (by omega)
    _ = (k + 3) * catalan (k + 1 + 1) := (succ_mul_catalan_succ (k + 1)).symm

theorem monotone_catalan : Monotone catalan := by
  apply monotone_nat_of_le_succ
  intro k
  cases k with
  | zero => rw [catalan_zero, catalan_one]
  | succ k =>
    have h := two_mul_catalan_le k
    omega

theorem two_pow_le_catalan (k : Nat) : 2 ^ k ≤ catalan (k + 1) := by
  induction k with
  | zero => rw [catalan_one, Nat.pow_zero]
  | succ k ih =>
    calc 2 ^ (k + 1) = 2 * 2 ^ k := by rw [Nat.pow_succ, Nat.mul_comm]
      _ ≤ 2 * catalan (k + 1) := Nat.mul_le_mul_left 2 ih
      _ ≤ catalan (k + 1 + 1) := two_mul_catalan_le k

section Ratio

variable {a c d n : Nat}

theorem reduced_of_ratio (hd : 0 < d) (h : d * a = n * c) :
    d / c.gcd d * a = n * (c / c.gcd d) := by
  apply Nat.eq_of_mul_eq_mul_left (Nat.gcd_pos_of_pos_right c hd)
  calc c.gcd d * (d / c.gcd d * a) = d * a := by
        rw [← Nat.mul_assoc, Nat.mul_div_cancel' (Nat.gcd_dvd_right c d)]
    _ = n * c := h
    _ = c.gcd d * (n * (c / c.gcd d)) := by
        rw [Nat.mul_left_comm, Nat.mul_div_cancel' (Nat.gcd_dvd_left c d)]

theorem dvd_of_ratio (hd : 0 < d) (h : d * a = n * c) : d / c.gcd d ∣ n := by
  have hcoprime := (Nat.coprime_div_gcd_div_gcd (Nat.gcd_pos_of_pos_right c hd)).symm
  exact hcoprime.dvd_of_dvd_mul_right ⟨a, (reduced_of_ratio hd h).symm⟩

theorem eq_of_ratio (hd : 0 < d) (h : d * a = n * c) :
    c / c.gcd d * (n / (d / c.gcd d)) = a := by
  have hpos : 0 < d / c.gcd d := Nat.div_gcd_pos_of_pos_right c hd
  apply Nat.eq_of_mul_eq_mul_left hpos
  rw [reduced_of_ratio hd h, Nat.mul_left_comm, Nat.mul_div_cancel' (dvd_of_ratio hd h),
    Nat.mul_comm]

end Ratio

namespace Catalan

theorem catalan_zero_lt : catalan 0 < 2 ^ width := by
  rw [catalan_zero]
  decide

theorem next?_catalan (k : Nat) :
    next? k (catalan k) =
      if catalan (k + 1) < 2 ^ width then some (catalan (k + 1)) else none := by
  simp only [next?, eq_of_ratio (Nat.succ_pos (k + 1)) (succ_mul_catalan_succ k)]

theorem after?_catalan {k : Nat} (h : catalan k < 2 ^ width) (steps : Nat) :
    after? k (catalan k) steps =
      if catalan (k + steps) < 2 ^ width then some (catalan (k + steps)) else none := by
  induction steps generalizing k with
  | zero => exact (if_pos h).symm
  | succ steps ih =>
    rw [after?, next?_catalan, ← Nat.add_assoc, Nat.add_right_comm]
    by_cases hnext : catalan (k + 1) < 2 ^ width
    · rw [if_pos hnext, Option.bind_some, ih hnext]
    · have hmono : catalan (k + 1) ≤ catalan (k + 1 + steps) :=
        monotone_catalan (Nat.le_add_right _ _)
      rw [if_neg hnext, Option.bind_none, if_neg (by omega)]

inductive Reaches : Nat → Nat → Prop
  | start : Reaches 0 1
  | step {k count next : Nat} : Reaches k count → next? k count = some next →
      Reaches (k + 1) next

theorem reaches_iff {k count : Nat} :
    Reaches k count ↔ catalan k < 2 ^ width ∧ count = catalan k := by
  constructor
  · intro h
    induction h with
    | start => exact ⟨catalan_zero_lt, catalan_zero.symm⟩
    | @step k count next _ hnext ih =>
      obtain ⟨-, rfl⟩ := ih
      rw [next?_catalan, Option.ite_none_right_eq_some, Option.some.injEq] at hnext
      exact ⟨hnext.1, hnext.2.symm⟩
  · rintro ⟨hroom, rfl⟩
    induction k with
    | zero =>
      rw [catalan_zero]
      exact .start
    | succ k ih =>
      have hprev := Nat.lt_of_le_of_lt (monotone_catalan (Nat.le_succ k)) hroom
      exact .step (ih hprev) (by rw [next?_catalan, if_pos hroom])

def parts (k count : Nat) : List Nat :=
  let common := count.gcd (k + 2)
  let reduced := (k + 2) / common
  [k + 2, common, count / common, reduced, 2 * k, 2 * k + 1, 2 * (2 * k + 1),
    2 * (2 * k + 1) / reduced]

/-- A step that always has something to divide by, with nothing left over, and that wants room for
its product alone, which is the next Catalan number. -/
structure Exact (k count : Nat) : Prop where
  common_pos : 0 < count.gcd (k + 2)
  common_dvd_count : count.gcd (k + 2) ∣ count
  common_dvd_divisor : count.gcd (k + 2) ∣ k + 2
  reduced_pos : 0 < (k + 2) / count.gcd (k + 2)
  reduced_dvd : (k + 2) / count.gcd (k + 2) ∣ 2 * (2 * k + 1)
  parts_lt : ∀ part ∈ parts k count, part < 2 ^ width
  next?_eq : next? k count =
    if catalan (k + 1) < 2 ^ width then some (catalan (k + 1)) else none

theorem le_width {k : Nat} (h : catalan k < 2 ^ width) : k ≤ width := by
  cases k with
  | zero => exact Nat.zero_le width
  | succ k => exact (Nat.pow_lt_pow_iff_right Nat.one_lt_two).1 ((two_pow_le_catalan k).trans_lt h)

theorem parts_lt {k count : Nat} (hk : k ≤ width) (hcount : count < 2 ^ width) :
    ∀ part ∈ parts k count, part < 2 ^ width := by
  have hwidth : 4 * width + 2 < 2 ^ width := by decide
  have hgcd : count.gcd (k + 2) ≤ k + 2 := Nat.gcd_le_right count (Nat.succ_pos (k + 1))
  have hcommon := Nat.div_le_self count (count.gcd (k + 2))
  have hreduced := Nat.div_le_self (k + 2) (count.gcd (k + 2))
  have hfactor := Nat.div_le_self (2 * (2 * k + 1)) ((k + 2) / count.gcd (k + 2))
  simp only [parts, List.forall_mem_cons, List.not_mem_nil, false_imp_iff, implies_true, and_true]
  omega

theorem Reaches.exact {k count : Nat} (h : Reaches k count) : Exact k count := by
  obtain ⟨hroom, rfl⟩ := reaches_iff.1 h
  exact {
    common_pos := Nat.gcd_pos_of_pos_right _ (Nat.succ_pos (k + 1))
    common_dvd_count := Nat.gcd_dvd_left _ _
    common_dvd_divisor := Nat.gcd_dvd_right _ _
    reduced_pos := Nat.div_gcd_pos_of_pos_right _ (Nat.succ_pos (k + 1))
    reduced_dvd := dvd_of_ratio (Nat.succ_pos (k + 1)) (succ_mul_catalan_succ k)
    parts_lt := parts_lt (le_width hroom) hroom
    next?_eq := next?_catalan k }

end Catalan

theorem catalan?_eq_catalan (operators : Nat) :
    catalan? operators =
        (if catalan operators < 2 ^ Catalan.width then some (catalan operators) else none) ∧
      (∀ count, catalan? operators = some count ↔ Catalan.Reaches operators count) ∧
      ∀ k count, Catalan.Reaches k count → Catalan.Exact k count := by
  have hwalk := Catalan.after?_catalan Catalan.catalan_zero_lt operators
  rw [Nat.zero_add, catalan_zero] at hwalk
  refine ⟨hwalk, fun count => ?_, fun k count h => h.exact⟩
  rw [catalan?, hwalk, Option.ite_none_right_eq_some, Option.some.injEq, Catalan.reaches_iff,
    eq_comm]

example : catalan? 69 = some 337485502510215975556783793455058624700 ∧ catalan? 70 = none := by
  decide +kernel

end Bracketing
