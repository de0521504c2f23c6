import Bracketing.Proofs.FaultLaws
import Bracketing.Proofs.ParallelLaws

namespace Bracketing

namespace Strategy

variable {ts : List Token}

theorem toOption_evaluate (s : Strategy) (ts : List Token) :
    (s.evaluate ts).toOption = (Evaluation.sequential ts).toOption := by
  cases s with
  | sequential => rfl
  | parallel => exact Evaluation.toOption_parallel ts
  | memoized => exact congrArg Except.toOption (Evaluation.memoized_eq_sequential ts)

theorem evaluate_eq_ok_iff_sequential {s : Strategy} {xs : List Float} :
    s.evaluate ts = .ok xs ↔ Evaluation.sequential ts = .ok xs := by
  rw [← Except.toOption_eq_some_iff, toOption_evaluate, Except.toOption_eq_some_iff]

theorem evaluate_eq_ok_iff {s : Strategy} {xs : List Float} :
    s.evaluate ts = .ok xs ↔
      ∃ trees, Tree.all ts = .ok trees ∧ xs = trees.filterMap Tree.value := by
  rw [evaluate_eq_ok_iff_sequential, Evaluation.sequential_eq_values_all]
  cases Tree.all ts with
  | error fault => simp [Except.map]
  | ok trees => simp [Except.map, eq_comm]

theorem evaluate_of_all {trees : List Tree} (s : Strategy) (h : Tree.all ts = .ok trees) :
    s.evaluate ts = .ok (trees.filterMap Tree.value) :=
  evaluate_eq_ok_iff.2 ⟨trees, h, rfl⟩

theorem exists_evaluate_iff_all (s : Strategy) :
    (∃ xs, s.evaluate ts = .ok xs) ↔ ∃ trees, Tree.all ts = .ok trees := by
  constructor
  · rintro ⟨xs, h⟩
    obtain ⟨trees, htrees, -⟩ := evaluate_eq_ok_iff.1 h
    exact ⟨trees, htrees⟩
  · rintro ⟨trees, h⟩
    exact ⟨_, s.evaluate_of_all h⟩

end Strategy

namespace Tree

variable {ts : List Token}

theorem exists_all_iff_read :
    (∃ trees, all ts = .ok trees) ↔ ∃ items, Item.read ts = .ok items := by
  constructor
  · rintro ⟨trees, h⟩
    exact exists_read_of_all h
  · rintro ⟨items, h⟩
    exact exists_all_of_read h

theorem eq_nil_of_even {trees : List Tree} (h : all ts = .ok trees) (heven : ts.length % 2 = 0) :
    trees = [] := by
  rw [List.eq_nil_iff_forall_not_mem]
  intro t ht
  have hlen := length_of_mem_all h ht
  omega

end Tree

end Bracketing
