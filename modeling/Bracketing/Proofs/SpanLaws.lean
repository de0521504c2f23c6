import Bracketing.Cut
import Bracketing.Evaluation.Cache
import Mathlib.Data.List.NatAntidiagonal
import Mathlib.Logic.Relation
import Mathlib.Tactic.Ring

namespace Bracketing.Evaluation.Span

open Relation

/-- A span is cut at an odd place of it; what stands before and behind is a span again. -/
inductive Side (s : Span) : Span → Prop
  | left {place : Nat} : place % 2 = 1 → place < s.length → Side s ⟨s.offset, place⟩
  | right {place rest : Nat} : place % 2 = 1 → place + 1 + rest = s.length →
      Side s ⟨s.offset + place + 1, rest⟩

theorem Side.of_cut_left {offset : Nat} {ts : List Token} {c : Cut} (hc : c ∈ Cut.all ts) :
    Side ⟨offset, ts.length⟩ ⟨offset, c.left.length⟩ :=
  .left (Cut.odd_length_left hc) (Cut.length_left_lt hc)

theorem Side.of_cut_right {offset : Nat} {ts : List Token} {c : Cut} (hc : c ∈ Cut.all ts) :
    Side ⟨offset, ts.length⟩ ⟨offset + c.left.length + 1, c.right.length⟩ :=
  .right (Cut.odd_length_left hc) (Cut.length_of_mem hc)

structure Inside (t s : Span) : Prop where
  begins : s.offset ≤ t.offset
  ends : t.offset + t.length ≤ s.offset + s.length

/-- In a list of `n` tokens the span begins where an operand stands, and ends where one stands or
where the list ends. -/
structure Placed (n : Nat) (s : Span) : Prop where
  begins : s.offset % 2 = 0
  within : s.offset + s.length ≤ n
  ends : s.length % 2 = 1 ∨ s.offset + s.length = n

variable {s t u : Span} {n : Nat}

theorem Inside.trans (htu : t.Inside u) (hst : s.Inside t) : s.Inside u :=
  ⟨Nat.le_trans htu.begins hst.begins, Nat.le_trans hst.ends htu.ends⟩

theorem Side.length_lt (h : Side s t) : t.length < s.length := by
  cases h with
  | left _ hplace => exact hplace
  | right _ hrest =>
    rw [← hrest]
    exact Nat.lt_add_of_pos_left (Nat.succ_pos _)

theorem Side.inside (h : Side s t) : t.Inside s := by
  cases h with
  | left _ hplace => exact ⟨Nat.le_refl _, Nat.add_le_add_left (Nat.le_of_lt hplace) _⟩
  | right _ hrest =>
    constructor
    · exact Nat.le_add_right_of_le (Nat.le_add_right _ _)
    · rw [← hrest, ← Nat.add_assoc, ← Nat.add_assoc]

theorem Placed.side (h : s.Placed n) (hside : Side s t) : t.Placed n := by
  have hwithin := Nat.le_trans hside.inside.ends h.within
  cases hside with
  | left hodd _ => exact ⟨h.begins, hwithin, .inl hodd⟩
  | @right place rest hodd hrest =>
    have hbegins := h.begins
    refine ⟨by dsimp only; omega, hwithin, ?_⟩
    -- what is behind the cut is as odd as `s`, and ends where `s` ends
    rcases h.ends with hlength | hend
    · exact .inl (by dsimp only; omega)
    · exact .inr (by dsimp only; omega)

theorem placed_whole (n : Nat) : Placed n ⟨0, n⟩ :=
  ⟨rfl, Nat.le_of_eq (Nat.zero_add n), .inr (Nat.zero_add n)⟩

theorem Placed.of_reflTransGen (h : s.Placed n) (hst : ReflTransGen Side s t) : t.Placed n := by
  induction hst with
  | refl => exact h
  | tail _ hside ih => exact ih.side hside

theorem length_lt_of_transGen (h : TransGen Side s t) : t.length < s.length := by
  induction h with
  | single hside => exact hside.length_lt
  | tail _ hside ih => exact Nat.lt_trans hside.length_lt ih

theorem inside_of_transGen (h : TransGen Side s t) : t.Inside s := by
  induction h with
  | single hside => exact hside.inside
  | tail _ hside ih => exact ih.trans hside.inside

theorem not_transGen_self (s : Span) : ¬ TransGen Side s s :=
  fun h => Nat.lt_irrefl _ (length_lt_of_transGen h)

/-- All the places there are: the halves of offset and length add up to half of `n` at most, and the
length is odd, unless the list ends one token earlier. -/
def places (n : Nat) : List Span :=
  (List.range (n / 2 + 1)).flatMap fun k =>
    (List.Nat.antidiagonal k).map fun (a, b) => ⟨2 * a, min (2 * b + 1) (n - 2 * a)⟩

theorem Placed.mem_places (h : s.Placed n) : s ∈ places n := by
  obtain ⟨offset, length⟩ := s
  obtain ⟨hbegins, hwithin, hends⟩ := h
  dsimp only at hbegins hwithin hends
  refine List.mem_flatMap.2 ⟨offset / 2 + length / 2, List.mem_range.2 (by omega), ?_⟩
  refine List.mem_map.2 ⟨(offset / 2, length / 2), List.Nat.mem_antidiagonal.2 rfl, ?_⟩
  simp only [mk.injEq]
  omega

theorem length_places (n : Nat) : (places n).length = (n / 2 + 1) * (n / 2 + 2) / 2 := by
  simp only [places, List.length_flatMap, List.length_map, List.Nat.length_antidiagonal]
  induction n / 2 with
  | zero => rfl
  | succ k ih =>
    rw [List.range_succ, List.map_append, List.sum_append, ih, List.map_singleton,
      List.sum_singleton, ← Nat.add_mul_div_left _ _ Nat.two_pos]
    congr 1
    ring

end Bracketing.Evaluation.Span
