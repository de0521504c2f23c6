import Bracketing.Operator

namespace Bracketing

inductive Tree
  | leaf (value : Float)
  | node (op : Operator) (left right : Tree)

namespace Tree

def value : Tree → Option Float
  | .leaf x => some x
  | .node op l r => do op.apply (← l.value) (← r.value)

def operators : Tree → Nat
  | .leaf _ => 0
  | .node _ l r => 1 + l.operators + r.operators

protected def beq : Tree → Tree → Bool
  | .leaf x, .leaf y => x == y
  | .node o l r, .node p m s => o == p && l.beq m && r.beq s
  | _, _ => false

instance : BEq Tree := ⟨Tree.beq⟩

@[simp] theorem value_leaf (x : Float) : (leaf x).value = some x := rfl

theorem value_node (op : Operator) (l r : Tree) :
    (node op l r).value = l.value.bind fun x => r.value.bind fun y => op.apply x y := rfl

@[simp] theorem leaf_beq_leaf (x y : Float) : (leaf x == leaf y) = (x == y) := rfl

@[simp] theorem node_beq_node (o p : Operator) (l r m s : Tree) :
    (node o l r == node p m s) = (o == p && l == m && r == s) := rfl

end Tree

end Bracketing
