import Bracketing.Proofs.SequentialLaws

namespace Bracketing

namespace Evaluation

def sides (part : List Token → Except Fault (List Float)) (c : Cut) :
    Except Fault (List Float × List Float) := do
  let ls ← part c.left
  let rs ← part c.right
  return (ls, rs)

theorem toOption_outcome (part : List Token → Except Fault (List Float)) (c : Cut) :
    (Cut.outcome Operator.combine part c).toOption = do
      let op ← c.middle.toOperator.toOption
      let xs ← (sides part c).toOption
      return op.combine xs.1 xs.2 := by
  simp only [Cut.outcome, sides, Except.toOption_bind, bind_assoc]
  rfl

theorem toOption_parallel_of_long {ts : List Token} (h : threshold < ts.length) :
    (parallel ts).toOption = (Cut.gather Operator.combine parallel ts).toOption := by
  calc (parallel ts).toOption = List.flatten <$> do
          let ops ← (Cut.all ts).mapM fun c => c.middle.toOperator.toOption
          let parts ← (Cut.all ts).mapM fun c => (sides parallel c).toOption
          return List.zipWith (fun op xs => op.combine xs.1 xs.2) ops parts := by
        rw [parallel_of_long h, ← Except.toOption_mapM, ← Except.toOption_mapM]
        simp only [Except.toOption_bind, map_bind, map_pure]
        rfl
    _ = List.flatten <$> (Cut.all ts).mapM fun c =>
          (Cut.outcome Operator.combine parallel c).toOption := by
        rw [Option.mapM_bind_mapM, funext (toOption_outcome parallel)]
    _ = (Cut.gather Operator.combine parallel ts).toOption := by
        rw [← flatMapM_eq_map_mapM, Cut.gather, Except.toOption_flatMapM]

theorem toOption_parallel (ts : List Token) :
    (parallel ts).toOption = (sequential ts).toOption := by
  induction ts using Cut.sides_induction with
  | nil => rw [parallel_of_short (by decide)]
  | single t => rw [parallel_of_short (by simp [threshold])]
  | long t m ts ihl ihr =>
    cases Nat.lt_or_ge threshold (t :: m :: ts).length with
    | inr h => rw [parallel_of_short h]
    | inl h =>
      rw [toOption_parallel_of_long h, sequential_eq_gather, Cut.gather, Cut.gather,
        Except.toOption_flatMapM, Except.toOption_flatMapM]
      apply flatMapM_congr
      intro c hc
      simp only [Cut.outcome, Except.toOption_bind, ihl c hc, ihr c hc]

end Evaluation

theorem Strategy.evaluate_parallel_iff_sequential (ts : List Token) :
    (∀ values, Strategy.parallel.evaluate ts = .ok values ↔
        Strategy.sequential.evaluate ts = .ok values) ∧
      ((∃ fault, Strategy.parallel.evaluate ts = .error fault) ↔
        ∃ fault, Strategy.sequential.evaluate ts = .error fault) := by
  have h : (Strategy.parallel.evaluate ts).toOption = (Strategy.sequential.evaluate ts).toOption :=
    Evaluation.toOption_parallel ts
  constructor
  · intro values
    rw [← Except.toOption_eq_some_iff, h, Except.toOption_eq_some_iff]
  · rw [← Except.toOption_eq_none_iff, h, Except.toOption_eq_none_iff]

end Bracketing
