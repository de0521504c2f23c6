import Bracketing.Proofs.StrategyLaws
import Bracketing.Proofs.ZeroLaws

namespace Bracketing

namespace Tree

inductive Part (s : Tree) : Tree → Prop
  | whole : Part s s
  | left (op : Operator) {l : Tree} (r : Tree) : Part s l → Part s (.node op l r)
  | right (op : Operator) (l : Tree) {r : Tree} : Part s r → Part s (.node op l r)

/-- A division of a value by a zero. What is without a value cannot be divided. -/
inductive DividesByZero : Tree → Prop
  | node {l r : Tree} {x y : Float} (hl : l.value = some x) (hr : r.value = some y)
      (hy : Double.IsZero y) : DividesByZero (.node .div l r)

def HasZeroDivision (t : Tree) : Prop := ∃ s, Part s t ∧ DividesByZero s

theorem not_hasZeroDivision_leaf (x : Float) : ¬ HasZeroDivision (leaf x) := by
  rintro ⟨s, hpart, hdivides⟩
  cases hpart
  cases hdivides

theorem hasZeroDivision_node_iff {op : Operator} {l r : Tree} :
    HasZeroDivision (node op l r) ↔
      DividesByZero (node op l r) ∨ HasZeroDivision l ∨ HasZeroDivision r := by
  constructor
  · rintro ⟨s, hpart, hdivides⟩
    cases hpart with
    | whole => exact .inl hdivides
    | left _ _ hpart => exact .inr (.inl ⟨s, hpart, hdivides⟩)
    | right _ _ hpart => exact .inr (.inr ⟨s, hpart, hdivides⟩)
  · rintro (hdivides | ⟨s, hpart, hdivides⟩ | ⟨s, hpart, hdivides⟩)
    · exact ⟨_, .whole, hdivides⟩
    · exact ⟨s, .left op r hpart, hdivides⟩
    · exact ⟨s, .right op l hpart, hdivides⟩

theorem dividesByZero_node_iff {op : Operator} {l r : Tree} {x y : Float} (hl : l.value = some x)
    (hr : r.value = some y) : DividesByZero (node op l r) ↔ op = .div ∧ Double.IsZero y := by
  constructor
  · rintro ⟨-, hr', hy⟩
    rw [hr] at hr'
    cases hr'
    exact ⟨rfl, hy⟩
  · rintro ⟨rfl, hy⟩
    exact .node hl hr hy

theorem value_node_eq_none_iff {op : Operator} {l r : Tree} :
    (node op l r).value = none ↔
      DividesByZero (node op l r) ∨ l.value = none ∨ r.value = none := by
  rw [value_node]
  cases hl : l.value with
  | none => simp
  | some x =>
    cases hr : r.value with
    | none => simp
    | some y =>
      rw [dividesByZero_node_iff hl hr, ← @Operator.apply_eq_none_iff op x y]
      simp

theorem value_eq_none_iff {t : Tree} : t.value = none ↔ t.HasZeroDivision := by
  induction t with
  | leaf x => simp [not_hasZeroDivision_leaf]
  | node op l r ihl ihr =>
    rw [value_node_eq_none_iff, hasZeroDivision_node_iff, ihl, ihr]

instance : DecidablePred HasZeroDivision := fun t =>
  decidable_of_iff (t.value.isNone = true) (by rw [Option.isNone_iff_eq_none, value_eq_none_iff])

example : HasZeroDivision (.node .div (.leaf 4) (.node .sub (.leaf 2) (.leaf 2))) := by
  decide +kernel

theorem map_some_filterMap_value (ts : List Tree) :
    (ts.filterMap value).map some = (ts.filter (¬ HasZeroDivision ·)).map value := by
  induction ts with
  | nil => rfl
  | cons t ts ih =>
    cases h : t.value with
    | none => simp [h, value_eq_none_iff.1 h, ih]
    | some x =>
      have hnot : ¬ t.HasZeroDivision := by simp [← value_eq_none_iff, h]
      simp [h, hnot, ih]

theorem div_mem_items {t : Tree} (h : t.HasZeroDivision) : .operator .div ∈ t.items := by
  obtain ⟨s, hpart, hdivides⟩ := h
  induction hpart with
  | whole =>
    cases hdivides
    simp [items]
  | left op r _ ih => exact List.mem_append_left _ ih
  | right op l _ ih => exact List.mem_append_right _ (List.mem_cons_of_mem _ ih)

theorem length_filterMap_value_of_no_div {ts : List Token} {trees : List Tree}
    (h : all ts = .ok trees) (hdiv : .operator .div ∉ ts) :
    (trees.filterMap value).length = trees.length := by
  rw [List.filterMap_length_eq_length]
  intro t ht
  rw [Option.isSome_iff_ne_none, ne_eq, value_eq_none_iff]
  intro hzero
  exact hdiv (Item.operator_mem_of_read ((mem_all_iff_read h t).1 ht) (div_mem_items hzero))

end Tree

theorem Strategy.evaluate_drops_only_zeroDivisions :
    (∀ t : Tree, t.value = none ↔ t.HasZeroDivision) ∧
      ∀ (s : Strategy) (ts : List Token) (xs : List Float), s.evaluate ts = .ok xs ↔
        ∃ trees, Tree.all ts = .ok trees ∧
          xs.map some = (trees.filter (¬ Tree.HasZeroDivision ·)).map Tree.value := by
  refine ⟨fun t => Tree.value_eq_none_iff, fun s ts xs => ?_⟩
  rw [evaluate_eq_ok_iff]
  constructor
  · rintro ⟨trees, htrees, rfl⟩
    exact ⟨trees, htrees, Tree.map_some_filterMap_value trees⟩
  · rintro ⟨trees, htrees, hvalues⟩
    rw [← Tree.map_some_filterMap_value] at hvalues
    exact ⟨trees, htrees, (List.map_inj_right fun _ _ => Option.some.inj).1 hvalues⟩

end Bracketing
