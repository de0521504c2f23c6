import Bracketing.Cut

namespace Bracketing.Evaluation

def operation (l m r : Token) : Except Fault (List Float) := do
  let op ← m.toOperator
  let x ← l.toValue
  let y ← r.toValue
  return (op.apply x y).toList

def short? : List Token → Option (Except Fault (List Float))
  | [] => some (.ok [])
  | [t] => some (t.toValue.map ([·]))
  | [l, m, r] => some (operation l m r)
  | _ => none

def sequential (ts : List Token) : Except Fault (List Float) :=
  match short? ts with
  | some values => values
  | none => (Cut.all ts).attach.flatMapM fun ⟨c, _⟩ => do
    let op ← c.middle.toOperator
    let ls ← sequential c.left
    let rs ← sequential c.right
    return op.combine ls rs
termination_by ts.length
decreasing_by
  · exact Cut.length_left_lt ‹_›
  · exact Cut.length_right_lt ‹_›

theorem sequential_of_short {ts : List Token} {values : Except Fault (List Float)}
    (h : short? ts = some values) : sequential ts = values := by
  rw [sequential, h]

theorem sequential_of_long {ts : List Token} (h : short? ts = none) :
    sequential ts = (Cut.all ts).flatMapM fun c => do
      let op ← c.middle.toOperator
      let ls ← sequential c.left
      let rs ← sequential c.right
      return op.combine ls rs := by
  rw [sequential, h]
  simp only [List.flatMapM_subtype, List.unattach_attach]

end Bracketing.Evaluation
