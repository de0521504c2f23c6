import Bracketing.Proofs.ZeroDivision
import Mathlib.Algebra.BigOperators.Fin
import Mathlib.Combinatorics.Enumerative.Catalan.Basic

namespace Bracketing

theorem Cut.map_length_left (ts : List Token) :
    (all ts).map (fun c => c.left.length) =
      (List.range (ts.length / 2)).map fun i => 2 * i + 1 := by
  fun_induction all ts with
  | case1 t m ts ih =>
    have hhalf : (t :: m :: ts).length / 2 = ts.length / 2 + 1 := by
      simp only [List.length_cons]
      omega
    have hshift : ((all ts).map (shift t m)).map (fun c => c.left.length) =
        ((all ts).map fun c => c.left.length).map (· + 2) := by
      simp [shift, Function.comp_def]
    rw [List.map_cons, hshift, ih, hhalf, List.range_succ_eq_map]
    simp [Function.comp_def, Nat.mul_add]
  | case2 ts hshort =>
    rcases ts with - | ⟨t, - | ⟨m, ts⟩⟩
    · rfl
    · simp
    · exact absurd rfl (hshort t m ts)

theorem Cut.length_right {c : Cut} {ts : List Token} (h : c ∈ all ts) :
    c.right.length = ts.length - c.left.length - 1 := by
  have hlen := length_of_mem h
  omega

theorem Cut.sum_map_catalan {ts : List Token} {k : Nat} (h : ts.length = 2 * k + 3) :
    ((all ts).map fun c => catalan (c.left.length / 2) * catalan (c.right.length / 2)).sum =
      catalan (k + 1) := by
  have hterm : ∀ c ∈ all ts, catalan (c.left.length / 2) * catalan (c.right.length / 2) =
      catalan (c.left.length / 2) * catalan (k - c.left.length / 2) := by
    intro c hc
    have hlt := length_left_lt hc
    have hodd := odd_length_left hc
    have hhalf : c.right.length / 2 = k - c.left.length / 2 := by
      rw [length_right hc]
      omega
    rw [hhalf]
  have hhalf : ts.length / 2 = k + 1 := by omega
  calc ((all ts).map fun c => catalan (c.left.length / 2) * catalan (c.right.length / 2)).sum
      = ((all ts).map fun c =>
          catalan (c.left.length / 2) * catalan (k - c.left.length / 2)).sum := by
        rw [List.map_congr_left hterm]
    _ = (((all ts).map fun c => c.left.length).map fun n =>
          catalan (n / 2) * catalan (k - n / 2)).sum := by
        rw [List.map_map]
        rfl
    _ = ((List.range (k + 1)).map fun i => catalan i * catalan (k - i)).sum := by
        rw [map_length_left, hhalf, List.map_map]
        congr 2
        funext i
        have hi : (2 * i + 1) / 2 = i := by omega
        simp only [Function.comp_apply, hi]
    _ = ∑ i : Fin (k + 1), catalan i * catalan (k - i) :=
        Finset.sum_range fun i => catalan i * catalan (k - i)
    _ = catalan (k + 1) := (catalan_succ k).symm

namespace Tree

theorem length_join (op : Operator) (ls rs : List Tree) :
    (join op ls rs).length = ls.length * rs.length := by
  simp [join, List.length_flatMap]

theorem length_all {ts : List Token} {trees : List Tree} (h : all ts = .ok trees)
    (hodd : ts.length % 2 = 1) : trees.length = catalan (ts.length / 2) := by
  induction ts using Cut.sides_induction generalizing trees with
  | nil => cases hodd
  | single t =>
    obtain ⟨x, -, rfl⟩ := all_singleton_eq_ok_iff.1 h
    have hhalf : [t].length / 2 = 0 := by simp
    rw [hhalf, catalan_zero, List.length_singleton]
  | long t m ts ihl ihr =>
    rw [all_eq_gather, Cut.gather_eq_ok_iff] at h
    obtain ⟨g, hg, rfl⟩ := h
    have hcut : ∀ c ∈ Cut.all (t :: m :: ts),
        (g c).length = catalan (c.left.length / 2) * catalan (c.right.length / 2) := by
      intro c hc
      obtain ⟨op, ls, rs, -, hls, hrs, hjoin⟩ := Cut.outcome_eq_ok_iff.1 (hg c hc)
      have hleft := Cut.odd_length_left hc
      have hright := Cut.length_right hc
      have hlt := Cut.length_left_lt hc
      rw [← hjoin, length_join, ihl c hc hls hleft, ihr c hc hrs (by omega)]
    obtain ⟨k, hk⟩ : ∃ k, (t :: m :: ts).length = 2 * k + 3 := by
      refine ⟨(t :: m :: ts).length / 2 - 1, ?_⟩
      simp only [List.length_cons] at *
      omega
    have hhalf : (t :: m :: ts).length / 2 = k + 1 := by omega
    rw [List.length_flatMap, List.map_congr_left hcut, Cut.sum_map_catalan hk, hhalf]

theorem length_all_eq_catalan {ts : List Token} {trees : List Tree} (h : all ts = .ok trees) :
    (∀ k, ts.length = 2 * k + 1 → trees.length = catalan k ∧ ∀ t ∈ trees, t.operators = k) ∧
      (ts.length % 2 = 0 → trees = [] ∧ ∀ s : Strategy, s.evaluate ts = .ok []) ∧
      (.operator .div ∉ ts →
        ∀ s : Strategy, ∃ xs, s.evaluate ts = .ok xs ∧ xs.length = trees.length) := by
  refine ⟨fun k hk => ⟨?_, fun t ht => ?_⟩, fun heven => ?_, fun hdiv s => ?_⟩
  · have hhalf : (2 * k + 1) / 2 = k := by omega
    rw [length_all h (by omega), hk, hhalf]
  · have hlen := length_of_mem_all h ht
    omega
  · obtain rfl := eq_nil_of_even h heven
    exact ⟨rfl, fun s => s.evaluate_of_all h⟩
  · exact ⟨_, s.evaluate_of_all h, length_filterMap_value_of_no_div h hdiv⟩

theorem length_all_eq_catalan_one_sub_two_mul_three :
    ∃ ts trees,
      ts = [.operand "1", .operator .sub, .operand "2", .operator .mul, .operand "3"] ∧
      all ts = .ok trees ∧ trees.length = 2 ∧ (∀ t ∈ trees, t.operators = 2) ∧
      ∀ s : Strategy, ∃ xs, s.evaluate ts = .ok xs ∧ xs.length = 2 := by
  obtain ⟨trees, h⟩ : ∃ trees, all [.operand "1", .operator .sub, .operand "2", .operator .mul,
      .operand "3"] = .ok trees := exists_all_of_read rfl
  obtain ⟨hodd, -, hvalues⟩ := length_all_eq_catalan h
  obtain ⟨hlen, hops⟩ := hodd 2 rfl
  rw [catalan_two] at hlen
  refine ⟨_, trees, rfl, h, hlen, hops, fun s => ?_⟩
  rw [← hlen]
  exact hvalues (by decide) s

end Tree

end Bracketing
