import Bracketing.Evaluation.Sequential
import Bracketing.Proofs.CutLaws
import Bracketing.Strategy
import Bracketing.Tree.All

namespace Bracketing

theorem Operator.combine_singleton (op : Operator) (x y : Float) :
    op.combine [x] [y] = (op.apply x y).toList := by
  cases h : op.apply x y with
  | none => simp [combine, h]
  | some z => simp [combine, h]

theorem Tree.filterMap_value_map_node (op : Operator) (l : Tree) (rs : List Tree) :
    (rs.map (node op l)).filterMap value =
      op.combine l.value.toList (rs.filterMap value) := by
  cases h : l.value with
  | none => simp [List.filterMap_map, Function.comp_def, value_node, h]
  | some x =>
    simp [List.filterMap_map, List.filterMap_filterMap, Function.comp_def, value_node, h,
      Operator.combine]

theorem Tree.filterMap_value_join (op : Operator) (ls rs : List Tree) :
    (join op ls rs).filterMap value =
      op.combine (ls.filterMap value) (rs.filterMap value) := by
  induction ls with
  | nil => rfl
  | cons l ls ih =>
    have hcons : (l :: ls).filterMap value = l.value.toList ++ ls.filterMap value := by
      cases h : l.value <;> simp [h]
    rw [hcons, Operator.combine_append_left, ← filterMap_value_map_node, ← ih]
    simp [join]

namespace Evaluation

@[simp] theorem sequential_nil : sequential [] = .ok [] := sequential_of_short rfl

@[simp] theorem sequential_singleton (t : Token) :
    sequential [t] = t.toValue.map ([·]) := sequential_of_short rfl

theorem sequential_operation (l m r : Token) : sequential [l, m, r] = operation l m r :=
  sequential_of_short rfl

theorem operation_eq_gather (l m r : Token) :
    operation l m r = Cut.gather Operator.combine sequential [l, m, r] := by
  have hcut : Cut.gather Operator.combine sequential [l, m, r] = do
      let op ← m.toOperator
      let xs ← l.toValue.map ([·])
      let ys ← r.toValue.map ([·])
      return op.combine xs ys := by
    simp [Cut.gather, Cut.all, Cut.outcome]
  rw [hcut, operation]
  cases l.toValue with
  | error fault => rfl
  | ok x =>
    cases r.toValue with
    | error fault => rfl
    | ok y =>
      congr 1
      funext op
      exact congrArg Except.ok (Operator.combine_singleton op x y).symm

theorem sequential_eq_gather (t m : Token) (ts : List Token) :
    sequential (t :: m :: ts) = Cut.gather Operator.combine sequential (t :: m :: ts) := by
  match ts with
  | [] => exact sequential_of_long rfl
  | [r] => rw [sequential_operation, operation_eq_gather]
  | _ :: _ :: _ => exact sequential_of_long rfl

theorem sequential_eq_gather_of_length {ts : List Token} (h : 1 < ts.length) :
    sequential ts = Cut.gather Operator.combine sequential ts := by
  match ts with
  | t :: m :: ts => exact sequential_eq_gather t m ts

end Evaluation

theorem Tree.all_eq_gather (t m : Token) (ts : List Token) :
    all (t :: m :: ts) = Cut.gather join all (t :: m :: ts) := all_of_long t m ts

theorem Evaluation.sequential_eq_values_all (ts : List Token) :
    sequential ts = (Tree.all ts).map (List.filterMap Tree.value) := by
  induction ts using Cut.sides_induction with
  | nil => simp [Except.map]
  | single t =>
    rw [sequential_singleton, Tree.all_singleton]
    cases t.toValue <;> rfl
  | long t m ts ihl ihr =>
    rw [sequential_eq_gather, Tree.all_eq_gather]
    apply Except.flatMapM_filterMap
    intro c hc
    exact Cut.outcome_filterMap Tree.filterMap_value_join (ihl c hc) (ihr c hc)

theorem Strategy.evaluate_sequential_iff_trees (ts : List Token) :
    (∀ fault, Strategy.sequential.evaluate ts = .error fault ↔ Tree.all ts = .error fault) ∧
      ∀ values, Strategy.sequential.evaluate ts = .ok values ↔
        ∃ trees, Tree.all ts = .ok trees ∧ trees.filterMap Tree.value = values := by
  rw [show Strategy.sequential.evaluate ts = _ from Evaluation.sequential_eq_values_all ts]
  cases Tree.all ts with
  | error fault => simp [Except.map]
  | ok trees => simp [Except.map]

end Bracketing
