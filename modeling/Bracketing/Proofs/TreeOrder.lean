import Bracketing.Tree

namespace Bracketing.Tree

def order : Tree → Tree → Ordering
  | .leaf _, .leaf _ => .eq
  | .leaf _, .node .. => .lt
  | .node .., .leaf _ => .gt
  | .node _ l r, .node _ m s =>
    (compare l.operators m.operators).then ((l.order m).then (r.order s))

def Before (t u : Tree) : Prop := t.order u = .lt

theorem order_self (t : Tree) : t.order t = .eq := by
  induction t with
  | leaf x => rfl
  | node op l r ihl ihr => simp [order, ihl, ihr]

theorem order_swap (t u : Tree) : (t.order u).swap = u.order t := by
  induction t generalizing u with
  | leaf x =>
    cases u with
    | leaf y => rfl
    | node p m s => rfl
  | node op l r ihl ihr =>
    cases u with
    | leaf y => rfl
    | node p m s => simp only [order, Ordering.swap_then, Nat.compare_swap, ihl, ihr]

theorem Before.ne {t u : Tree} (h : Before t u) : t ≠ u := by
  rintro rfl
  rw [Before, order_self] at h
  cases h

theorem Before.asymm {t u : Tree} (h : Before t u) : ¬ Before u t := by
  intro h'
  rw [Before, ← order_swap, h] at h'
  cases h'

theorem before_of_operators {o p : Operator} {l m r s : Tree} (h : l.operators < m.operators) :
    Before (node o l r) (node p m s) := by
  simp [Before, order, Nat.compare_eq_lt.2 h]

theorem before_of_left {o p : Operator} {l m r s : Tree} (hops : l.operators = m.operators)
    (h : Before l m) : Before (node o l r) (node p m s) := by
  rw [Before] at *
  simp [order, hops, h]

theorem before_of_right {o p : Operator} {l r s : Tree} (h : Before r s) :
    Before (node o l r) (node p l s) := by
  rw [Before] at *
  simp [order, order_self, h]

theorem eq_of_pairwise_before {ts us : List Tree} (hts : ts.Pairwise Before)
    (hus : us.Pairwise Before) (h : ∀ t, t ∈ us ↔ t ∈ ts) : us = ts := by
  have hperm : us.Perm ts :=
    (List.perm_ext_iff_of_nodup (hus.imp Before.ne) (hts.imp Before.ne)).2 h
  exact hperm.eq_of_pairwise (fun _ _ _ _ htu hut => absurd hut htu.asymm) hus hts

end Bracketing.Tree
