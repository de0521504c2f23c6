import Bracketing.Double.Text
import Bracketing.Tree

namespace Bracketing.Tree

def inner : Tree → String
  | .leaf x => Double.text x
  | .node op l r => "(" ++ l.inner ++ " " ++ op.text ++ " " ++ r.inner ++ ")"

def text : Tree → String
  | .leaf x => Double.text x
  | .node op l r => l.inner ++ " " ++ op.text ++ " " ++ r.inner

def line (t : Tree) : String :=
  t.text ++ " = " ++ (t.value.map Double.text).getD "no result" ++ "\n"

theorem inner_node (op : Operator) (l r : Tree) :
    (node op l r).inner = "(" ++ (node op l r).text ++ ")" := by
  simp [inner, text, String.append_assoc]

end Bracketing.Tree
