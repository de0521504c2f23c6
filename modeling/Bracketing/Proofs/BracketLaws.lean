import Bracketing.Proofs.Double.Reading
import Bracketing.Proofs.TableLaws

/-!
Brackets in the texts of trees. Each operation but the outermost has one pair of them around its
text. Without brackets and spaces the text gives the items of the tree, from left to right, and with
them it gives the tree, if every leaf of it is a number.
-/

namespace Bracketing

/-- What stands in front of the bracket that closes as many as are open and one more. -/
def upToClose : Nat → List Char → List Char
  | _, [] => []
  | depth, c :: cs =>
    if c = '(' then c :: upToClose (depth + 1) cs
    else if c = ')' then if depth = 0 then [] else c :: upToClose (depth - 1) cs
    else c :: upToClose depth cs

/-- What stands in each pair of brackets, in the order of the opening ones. -/
def bracketed : List Char → List (List Char)
  | [] => []
  | c :: cs => if c = '(' then upToClose 0 cs :: bracketed cs else bracketed cs

def areClosed : Nat → List Char → Bool
  | depth, [] => depth == 0
  | depth, c :: cs =>
    if c = '(' then areClosed (depth + 1) cs
    else if c = ')' then depth != 0 && areClosed (depth - 1) cs
    else areClosed depth cs

def stripped (cs : List Char) : List Char := cs.filter fun c => c ∉ ['(', ')', ' ']

def Item.chars : Item → List Char
  | .number x => (Double.text x).toList
  | .operator op => [op.symbol]

theorem length_bracketed (cs : List Char) : (bracketed cs).length = cs.count '(' := by
  induction cs with
  | nil => rfl
  | cons c cs ih =>
    rw [bracketed, List.count_cons]
    by_cases h : c = '(' <;> simp [h, ih]

theorem count_close_of_areClosed {depth : Nat} {cs : List Char} (h : areClosed depth cs = true) :
    cs.count ')' = cs.count '(' + depth := by
  induction cs generalizing depth with
  | nil =>
    rw [eq_of_beq h]
    rfl
  | cons c cs ih =>
    rw [areClosed] at h
    rw [List.count_cons, List.count_cons]
    split at h
    next hopen =>
      rw [hopen, ih h, if_neg (by decide), if_pos (by decide)]
      omega
    next hopen =>
      split at h
      next hclose =>
        rw [Bool.and_eq_true, bne_iff_ne] at h
        rw [hclose, ih h.2, if_pos (by decide), if_neg (by decide)]
        omega
      next hclose =>
        rw [ih h, if_neg (by simpa using hclose), if_neg (by simpa using hopen)]
        omega

theorem stripped_append (cs ds : List Char) : stripped (cs ++ ds) = stripped cs ++ stripped ds :=
  List.filter_append cs ds

theorem stripped_open (cs : List Char) : stripped ('(' :: cs) = stripped cs :=
  List.filter_cons_of_neg (by decide)

theorem Double.stripped_text (x : Float) : stripped (text x).toList = (text x).toList := by
  rw [stripped, List.filter_eq_self]
  intro c hc
  rw [decide_eq_true_iff]
  intro hbetween
  have hnumber := isTextChar_of_mem_text hc
  simp only [List.mem_cons, List.not_mem_nil, or_false] at hbetween
  rcases hbetween with rfl | rfl | rfl <;> cases hnumber

theorem Operator.stripped_symbol (op : Operator) : stripped [' ', op.symbol, ' '] = [op.symbol] := by
  cases op <;> decide

section Plain

def IsPlain (cs : List Char) : Prop := ∀ c ∈ cs, c ≠ '(' ∧ c ≠ ')'

theorem Double.isPlain_text (x : Float) : IsPlain (text x).toList := by
  intro c hc
  constructor <;> rintro rfl <;> cases isTextChar_of_mem_text hc

theorem Operator.isPlain_symbol (op : Operator) : IsPlain [' ', op.symbol, ' '] := by
  cases op <;> simp [IsPlain, symbol]

variable {cs : List Char} (h : IsPlain cs) (rest : List Char)
include h

theorem upToClose_plain (depth : Nat) :
    upToClose depth (cs ++ rest) = cs ++ upToClose depth rest := by
  induction cs with
  | nil => rfl
  | cons c cs ih =>
    obtain ⟨hc, hcs⟩ := List.forall_mem_cons.1 h
    rw [List.cons_append, upToClose, if_neg hc.1, if_neg hc.2, ih hcs, List.cons_append]

theorem bracketed_plain : bracketed (cs ++ rest) = bracketed rest := by
  induction cs with
  | nil => rfl
  | cons c cs ih =>
    obtain ⟨hc, hcs⟩ := List.forall_mem_cons.1 h
    rw [List.cons_append, bracketed, if_neg hc.1, ih hcs]

theorem areClosed_plain (depth : Nat) : areClosed depth (cs ++ rest) = areClosed depth rest := by
  induction cs with
  | nil => rfl
  | cons c cs ih =>
    obtain ⟨hc, hcs⟩ := List.forall_mem_cons.1 h
    rw [List.cons_append, areClosed, if_neg hc.1, if_neg hc.2, ih hcs]

end Plain

namespace Tree

/-- The operations of a tree with what they are done to, each in front of those in it. -/
def operations : Tree → List Tree
  | .leaf _ => []
  | .node op l r => .node op l r :: (l.operations ++ r.operations)

theorem length_operations (t : Tree) : t.operations.length = t.operators := by
  induction t with
  | leaf x => rfl
  | node op l r ihl ihr =>
    rw [operations, operators, List.length_cons, List.length_append, ihl, ihr]
    omega

theorem toList_inner_node_append (op : Operator) (l r : Tree) (rest : List Char) :
    (node op l r).inner.toList ++ rest =
      '(' :: (l.inner.toList ++ ([' ', op.symbol, ' '] ++ (r.inner.toList ++ ')' :: rest))) := by
  simp [toList_inner_node]

theorem toList_text_node_append (op : Operator) (l r : Tree) (rest : List Char) :
    (node op l r).text.toList ++ rest =
      l.inner.toList ++ ([' ', op.symbol, ' '] ++ (r.inner.toList ++ rest)) := by
  simp [text, Operator.text]

theorem upToClose_inner_append (t : Tree) (depth : Nat) (rest : List Char) :
    upToClose depth (t.inner.toList ++ rest) = t.inner.toList ++ upToClose depth rest := by
  induction t generalizing depth rest with
  | leaf x => exact upToClose_plain (Double.isPlain_text x) rest depth
  | node op l r ihl ihr =>
    rw [toList_inner_node_append, upToClose, if_pos rfl, ihl, upToClose_plain op.isPlain_symbol,
      ihr, upToClose, if_neg (by decide), if_pos rfl, if_neg depth.succ_ne_zero,
      Nat.add_sub_cancel, toList_inner_node_append]

theorem upToClose_text (op : Operator) (l r : Tree) (rest : List Char) :
    upToClose 0 ((node op l r).text.toList ++ ')' :: rest) = (node op l r).text.toList := by
  rw [toList_text_node_append, upToClose_inner_append, upToClose_plain op.isPlain_symbol,
    upToClose_inner_append, upToClose, if_neg (by decide), if_pos rfl, if_pos rfl,
    ← toList_text_node_append, List.append_nil]

theorem bracketed_inner_append (t : Tree) (rest : List Char) :
    bracketed (t.inner.toList ++ rest) =
      t.operations.map (fun u => u.text.toList) ++ bracketed rest := by
  induction t generalizing rest with
  | leaf x => exact bracketed_plain (Double.isPlain_text x) rest
  | node op l r ihl ihr =>
    rw [toList_inner_node_append, bracketed, if_pos rfl, ← toList_text_node_append,
      upToClose_text, toList_text_node_append, ihl, bracketed_plain op.isPlain_symbol, ihr,
      bracketed, if_neg (by decide), operations, List.map_cons, List.map_append, List.cons_append,
      List.append_assoc]

theorem areClosed_inner_append (t : Tree) (depth : Nat) (rest : List Char) :
    areClosed depth (t.inner.toList ++ rest) = areClosed depth rest := by
  induction t generalizing depth rest with
  | leaf x => exact areClosed_plain (Double.isPlain_text x) rest depth
  | node op l r ihl ihr =>
    rw [toList_inner_node_append, areClosed, if_pos rfl, ihl, areClosed_plain op.isPlain_symbol,
      ihr, areClosed, if_neg (by decide), if_pos rfl, bne_iff_ne.2 depth.succ_ne_zero,
      Bool.true_and, Nat.add_sub_cancel]

theorem stripped_inner (t : Tree) : stripped t.inner.toList = t.items.flatMap Item.chars := by
  induction t with
  | leaf x =>
    rw [toList_inner_leaf, Double.stripped_text, items, List.flatMap_singleton, Item.chars]
  | node op l r ihl ihr =>
    rw [← List.append_nil (node op l r).inner.toList, toList_inner_node_append, stripped_open,
      stripped_append, stripped_append, stripped_append, ihl, op.stripped_symbol, ihr, items,
      List.flatMap_append, List.flatMap_cons, Item.chars]
    exact congrArg _ (congrArg _ (List.append_nil _))

/-- How the text of a tree goes by its brackets, and what it is without them. -/
structure Renders (t : Tree) (cs : List Char) : Prop where
  areClosed : areClosed 0 cs = true
  bracketed_eq : bracketed cs = t.operations.tail.map fun u => u.text.toList
  count_open : cs.count '(' = t.operators - 1
  count_close : cs.count ')' = t.operators - 1
  stripped_eq : stripped cs = t.items.flatMap Item.chars

theorem areClosed_text (t : Tree) : Bracketing.areClosed 0 t.text.toList = true := by
  rw [← List.append_nil t.text.toList]
  cases t with
  | leaf x => exact areClosed_inner_append (leaf x) 0 []
  | node op l r =>
    rw [toList_text_node_append, areClosed_inner_append, areClosed_plain op.isPlain_symbol,
      areClosed_inner_append]
    rfl

theorem bracketed_text (t : Tree) :
    bracketed t.text.toList = t.operations.tail.map fun u => u.text.toList := by
  rw [← List.append_nil t.text.toList]
  cases t with
  | leaf x => exact bracketed_inner_append (leaf x) []
  | node op l r =>
    rw [toList_text_node_append, bracketed_inner_append, bracketed_plain op.isPlain_symbol,
      bracketed_inner_append, operations, List.tail_cons, List.map_append, bracketed,
      List.append_nil]

theorem stripped_text (t : Tree) : stripped t.text.toList = t.items.flatMap Item.chars := by
  rw [← stripped_inner]
  cases t with
  | leaf x => rfl
  | node op l r =>
    rw [← List.append_nil (node op l r).inner.toList, toList_inner_node_append, stripped_open,
      ← toList_text_node_append, stripped_append]
    exact (List.append_nil _).symm

theorem renders_text (t : Tree) : Renders t t.text.toList := by
  have hclosed := areClosed_text t
  have hbracketed := bracketed_text t
  have hopen : t.text.toList.count '(' = t.operators - 1 := by
    rw [← length_bracketed, hbracketed, List.length_map, List.length_tail, length_operations]
  have hclose : t.text.toList.count ')' = t.operators - 1 := by
    rw [count_close_of_areClosed hclosed, hopen, Nat.add_zero]
  exact ⟨hclosed, hbracketed, hopen, hclose, stripped_text t⟩

def IsNumeric (t : Tree) : Prop := ∀ x, .number x ∈ t.items → x.isNaN = false

theorem isNumeric_leaf {x : Float} : IsNumeric (leaf x) ↔ x.isNaN = false := by
  simp [IsNumeric, items]

theorem isNumeric_node {op : Operator} {l r : Tree} :
    IsNumeric (node op l r) ↔ IsNumeric l ∧ IsNumeric r := by
  simp [IsNumeric, items, or_imp, forall_and]

theorem Alike.eq_of_isNumeric {t u : Tree} (h : Alike t u) (ht : IsNumeric t) (hu : IsNumeric u) :
    t = u := by
  induction h with
  | leaf h => rw [Double.eq_of_text (isNumeric_leaf.1 ht) (isNumeric_leaf.1 hu) h]
  | node _ _ ihl ihr =>
    rw [isNumeric_node] at ht hu
    rw [ihl ht.1 hu.1, ihr ht.2 hu.2]

theorem text_eq_iff {t u : Tree} (ht : IsNumeric t) (hu : IsNumeric u) :
    t.text = u.text ↔ t = u := by
  constructor
  · intro h
    exact (alike_of_text h).eq_of_isNumeric ht hu
  · rintro rfl
    rfl

theorem stripped_text_eq_of_mem_all {ts : List Token} {trees : List Tree} (h : all ts = .ok trees)
    {t u : Tree} (ht : t ∈ trees) (hu : u ∈ trees) :
    stripped t.text.toList = stripped u.text.toList := by
  have hitems := (mem_all_iff_read h t).1 ht
  rw [(mem_all_iff_read h u).1 hu, Except.ok.injEq] at hitems
  rw [stripped_text, stripped_text, hitems]

theorem text_tells_tree {t u : Tree} (ht : IsNumeric t) (hu : IsNumeric u) :
    (t.text = u.text ↔ t = u) ∧
      (∀ v : Tree, Renders v v.text.toList) ∧
      ∀ ts trees, all ts = .ok trees → (trees.map text).Nodup ∧
        ∀ v ∈ trees, ∀ w ∈ trees, stripped v.text.toList = stripped w.text.toList :=
  ⟨text_eq_iff ht hu, renders_text, fun _ _ h =>
    ⟨nodup_map_text_all h, fun _ hv _ hw => stripped_text_eq_of_mem_all h hv hw⟩⟩

theorem text_tells_tree_zeros :
    ∃ t u : Tree, t = node .sub (node .sub (leaf 0) (leaf (-0))) (leaf 0) ∧
      u = node .sub (leaf 0) (node .sub (leaf (-0)) (leaf 0)) ∧
      IsNumeric t ∧ IsNumeric u ∧ t.text ≠ u.text := by
  have hzero : IsNumeric (leaf 0) := isNumeric_leaf.2 (by decide)
  have hminus : IsNumeric (leaf (-0)) := isNumeric_leaf.2 (by decide)
  have hleft : IsNumeric (node .sub (node .sub (leaf 0) (leaf (-0))) (leaf 0)) :=
    isNumeric_node.2 ⟨isNumeric_node.2 ⟨hzero, hminus⟩, hzero⟩
  have hright : IsNumeric (node .sub (leaf 0) (node .sub (leaf (-0)) (leaf 0))) :=
    isNumeric_node.2 ⟨hzero, isNumeric_node.2 ⟨hminus, hzero⟩⟩
  refine ⟨_, _, rfl, rfl, hleft, hright, fun h => ?_⟩
  cases (text_tells_tree hleft hright).1.1 h

end Tree

end Bracketing
