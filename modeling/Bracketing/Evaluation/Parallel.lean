import Bracketing.Evaluation.Sequential

/-!
The values of a token list with all its operators looked at before any of its parts, so that the
parts no longer wait for each other; their values are put together in the order of the cuts. A list
of up to nine tokens has too little in it and is left to `sequential`.
-/

namespace Bracketing.Evaluation

def threshold : Nat := 9

/-- The operators of a token list, or the leftmost operand that stands in the place of one. -/
def operators (ts : List Token) : Except Fault (List Operator) :=
  (Cut.all ts).mapM fun c => c.middle.toOperator

def parallel (ts : List Token) : Except Fault (List Float) :=
  if ts.length ≤ threshold then sequential ts
  else do
    let ops ← operators ts
    let parts ← (Cut.all ts).attach.mapM fun ⟨c, _⟩ => do
      let ls ← parallel c.left
      let rs ← parallel c.right
      return (ls, rs)
    return (List.zipWith (fun op (ls, rs) => op.combine ls rs) ops parts).flatten
termination_by ts.length
decreasing_by
  · exact Cut.length_left_lt ‹_›
  · exact Cut.length_right_lt ‹_›

theorem parallel_of_short {ts : List Token} (h : ts.length ≤ threshold) :
    parallel ts = sequential ts := by
  rw [parallel, if_pos h]

theorem parallel_of_long {ts : List Token} (h : threshold < ts.length) :
    parallel ts = do
      let ops ← operators ts
      let parts ← (Cut.all ts).mapM fun c => do
        let ls ← parallel c.left
        let rs ← parallel c.right
        return (ls, rs)
      return (List.zipWith (fun op (ls, rs) => op.combine ls rs) ops parts).flatten := by
  rw [parallel, if_neg (Nat.not_le_of_lt h)]
  simp only [List.mapM_subtype, List.unattach_attach]

end Bracketing.Evaluation
