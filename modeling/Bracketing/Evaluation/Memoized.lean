import Bracketing.Evaluation.Cache
import Bracketing.Evaluation.Sequential

namespace Bracketing.Evaluation

abbrev Memo := ExceptT Fault (StateM Cache)

@[macro_inline] def remember (span : Span) (work : Memo (List Float)) : Memo (List Float) := do
  match (← get).find? span with
  | some values => return values
  | none =>
    let values ← work
    modify (·.insert span values)
    return values

/-- The values of the tokens `ts` that stand at `offset` in the whole list. -/
def memoizedAt (offset : Nat) (ts : List Token) : Memo (List Float) :=
  remember ⟨offset, ts.length⟩ <| match short? ts with
    | some values => liftM values
    | none => (Cut.all ts).attach.flatMapM fun ⟨c, _⟩ => do
      let op ← c.middle.toOperator
      let ls ← memoizedAt offset c.left
      let rs ← memoizedAt (offset + c.left.length + 1) c.right
      return op.combine ls rs
termination_by ts.length
decreasing_by
  · exact Cut.length_left_lt ‹_›
  · exact Cut.length_right_lt ‹_›

def memoizedParts (offset : Nat) (ts : List Token) : Memo (List Float) :=
  match short? ts with
  | some values => liftM values
  | none => (Cut.all ts).flatMapM fun c => do
    let op ← c.middle.toOperator
    let ls ← memoizedAt offset c.left
    let rs ← memoizedAt (offset + c.left.length + 1) c.right
    return op.combine ls rs

theorem memoizedAt_eq (offset : Nat) (ts : List Token) :
    memoizedAt offset ts = remember ⟨offset, ts.length⟩ (memoizedParts offset ts) := by
  rw [memoizedAt]
  simp only [List.flatMapM_subtype, List.unattach_attach]
  rfl

def memoized (ts : List Token) : Except Fault (List Float) :=
  ((memoizedAt 0 ts).run.run Cache.empty).1

end Bracketing.Evaluation
