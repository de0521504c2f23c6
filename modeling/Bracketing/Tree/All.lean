import Bracketing.Cut
import Bracketing.Tree

namespace Bracketing.Tree

def join (op : Operator) (ls rs : List Tree) : List Tree :=
  ls.flatMap fun l => rs.map fun r => .node op l r

def all : List Token → Except Fault (List Tree)
  | [] => .ok []
  | [t] => t.toValue.map fun x => [.leaf x]
  | t :: m :: ts => (Cut.all (t :: m :: ts)).attach.flatMapM fun ⟨c, _⟩ => do
    let op ← c.middle.toOperator
    let ls ← all c.left
    let rs ← all c.right
    return join op ls rs
termination_by ts => ts.length
decreasing_by
  · exact Cut.length_left_lt ‹_›
  · exact Cut.length_right_lt ‹_›

@[simp] theorem all_nil : all [] = .ok [] := by rw [all]

@[simp] theorem all_singleton (t : Token) : all [t] = t.toValue.map fun x => [.leaf x] := by
  rw [all]

theorem all_of_long (t m : Token) (ts : List Token) :
    all (t :: m :: ts) = (Cut.all (t :: m :: ts)).flatMapM fun c => do
      let op ← c.middle.toOperator
      let ls ← all c.left
      let rs ← all c.right
      return join op ls rs := by
  rw [all]
  simp only [List.flatMapM_subtype, List.unattach_attach]

end Bracketing.Tree
