import Bracketing.Proofs.ItemLaws
import Bracketing.Proofs.TreeOrder

namespace Bracketing.Tree

theorem mem_join {op : Operator} {ls rs : List Tree} {t : Tree} :
    t ∈ join op ls rs ↔ ∃ l ∈ ls, ∃ r ∈ rs, node op l r = t := by
  simp [join]

theorem pairwise_join {op : Operator} {ls rs : List Tree} {n : Nat}
    (hls : ls.Pairwise Before) (hrs : rs.Pairwise Before)
    (hlen : ∀ l ∈ ls, n = 2 * l.operators + 1) : (join op ls rs).Pairwise Before := by
  rw [join, List.pairwise_flatMap]
  constructor
  · intro l _
    rw [List.pairwise_map]
    exact hrs.imp before_of_right
  · apply hls.imp_of_mem
    intro l m hl hm hlm t ht u hu
    obtain ⟨r, -, rfl⟩ := List.mem_map.1 ht
    obtain ⟨s, -, rfl⟩ := List.mem_map.1 hu
    have hops : l.operators = m.operators := by
      have hl := hlen l hl
      have hm := hlen m hm
      omega
    exact before_of_left hops hlm

theorem all_singleton_eq_ok_iff {t : Token} {trees : List Tree} :
    all [t] = .ok trees ↔ ∃ x, t.toValue = .ok x ∧ [leaf x] = trees := by
  rw [all_singleton]
  cases t.toValue <;> simp [Except.map]

theorem mem_all_iff_read {ts : List Token} {trees : List Tree} (h : all ts = .ok trees) (t : Tree) :
    t ∈ trees ↔ Item.read ts = .ok t.items := by
  induction ts using Cut.sides_induction generalizing trees t with
  | nil =>
    rw [all_nil] at h
    cases h
    have hne : t.items ≠ [] := List.ne_nil_of_length_pos (by rw [length_items]; omega)
    simpa [Item.read] using hne.symm
  | single s =>
    obtain ⟨x, hx, rfl⟩ := all_singleton_eq_ok_iff.1 h
    rw [List.mem_singleton, ← items_eq_singleton_iff, Item.read_singleton_eq_ok_iff, hx]
    simp [eq_comm]
  | long s m ts ihl ihr =>
    rw [all_eq_gather, Cut.gather_eq_ok_iff] at h
    obtain ⟨g, hg, rfl⟩ := h
    rw [List.mem_flatMap]
    constructor
    · rintro ⟨c, hc, ht⟩
      obtain ⟨op, ls, rs, hm, hls, hrs, hjoin⟩ := Cut.outcome_eq_ok_iff.1 (hg c hc)
      rw [← hjoin, mem_join] at ht
      obtain ⟨l, hl, r, hr, rfl⟩ := ht
      exact (Item.read_eq_ok_iff_of_cut hc).2 ⟨op, l.items, r.items, hm,
        (ihl c hc hls l).1 hl, (ihr c hc hrs r).1 hr, rfl⟩
    · intro ht
      cases t with
      | leaf x =>
        have hlen := Item.length_of_read ht
        simp [items] at hlen
      | node op l r =>
        obtain ⟨c, hc, hop, hl, hr⟩ :=
          Item.exists_cut_of_read ht (by rw [length_items]; omega)
        obtain ⟨p, ls, rs, hm, hls, hrs, hjoin⟩ := Cut.outcome_eq_ok_iff.1 (hg c hc)
        rw [hop] at hm
        cases hm
        refine ⟨c, hc, ?_⟩
        rw [← hjoin, mem_join]
        exact ⟨l, (ihl c hc hls l).2 hl, r, (ihr c hc hrs r).2 hr, rfl⟩

theorem length_of_mem_all {ts : List Token} {trees : List Tree} (h : all ts = .ok trees) {t : Tree}
    (ht : t ∈ trees) : ts.length = 2 * t.operators + 1 := by
  rw [← Item.length_of_read ((mem_all_iff_read h t).1 ht), length_items]

theorem pairwise_all {ts : List Token} {trees : List Tree} (h : all ts = .ok trees) :
    trees.Pairwise Before := by
  induction ts using Cut.sides_induction generalizing trees with
  | nil =>
    rw [all_nil] at h
    cases h
    exact List.Pairwise.nil
  | single s =>
    obtain ⟨x, -, rfl⟩ := all_singleton_eq_ok_iff.1 h
    exact List.pairwise_singleton _ _
  | long s m ts ihl ihr =>
    rw [all_eq_gather, Cut.gather_eq_ok_iff] at h
    obtain ⟨g, hg, rfl⟩ := h
    rw [List.pairwise_flatMap]
    constructor
    · intro c hc
      obtain ⟨op, ls, rs, -, hls, hrs, hjoin⟩ := Cut.outcome_eq_ok_iff.1 (hg c hc)
      rw [← hjoin]
      exact pairwise_join (ihl c hc hls) (ihr c hc hrs) fun l hl => length_of_mem_all hls hl
    · apply (Cut.pairwise_length_left (s :: m :: ts)).imp_of_mem
      intro c d hc hd hlt t ht u hu
      obtain ⟨o, ls, rs, -, hls, -, hjoin⟩ := Cut.outcome_eq_ok_iff.1 (hg c hc)
      rw [← hjoin, mem_join] at ht
      obtain ⟨l, hl, r, -, rfl⟩ := ht
      obtain ⟨p, ms, ss, -, hms, -, hjoin'⟩ := Cut.outcome_eq_ok_iff.1 (hg d hd)
      rw [← hjoin', mem_join] at hu
      obtain ⟨m, hm, s, -, rfl⟩ := hu
      apply before_of_operators
      rw [length_of_mem_all hls hl, length_of_mem_all hms hm] at hlt
      omega

theorem all_eq_sorted_readings {ts : List Token} {trees : List Tree} (h : all ts = .ok trees) :
    ∃ items, Item.read ts = .ok items ∧ (∀ t, t ∈ trees ↔ t.items = items) ∧
      trees.Pairwise Before ∧ trees.Nodup ∧
      ∀ us : List Tree, (∀ t, t ∈ us ↔ t.items = items) → us.Pairwise Before → us = trees := by
  obtain ⟨items, hread⟩ := exists_read_of_all h
  have hmem : ∀ t, t ∈ trees ↔ t.items = items := by
    intro t
    rw [mem_all_iff_read h t, hread, Except.ok.injEq, eq_comm]
  have hsorted := pairwise_all h
  refine ⟨items, hread, hmem, hsorted, hsorted.imp Before.ne, fun us hus hsorted' => ?_⟩
  exact eq_of_pairwise_before hsorted hsorted' fun t => (hus t).trans (hmem t).symm

theorem all_eq_sorted_readings_one_sub_two_div_zero :
    ∃ ts trees,
      ts = [.operand "1", .operator .sub, .operand "2", .operator .div, .operand "0"] ∧
      trees = [.node .sub (.leaf 1) (.node .div (.leaf 2) (.leaf 0)),
        .node .div (.node .sub (.leaf 1) (.leaf 2)) (.leaf 0)] ∧
      all ts = .ok trees ∧
      ∃ items, Item.read ts = .ok items ∧ (∀ t, t ∈ trees ↔ t.items = items) ∧
        trees.Pairwise Before ∧ trees.Nodup ∧
        ∀ us : List Tree, (∀ t, t ∈ us ↔ t.items = items) → us.Pairwise Before → us = trees := by
  have h : all [.operand "1", .operator .sub, .operand "2", .operator .div, .operand "0"] =
      .ok [.node .sub (.leaf 1) (.node .div (.leaf 2) (.leaf 0)),
        .node .div (.node .sub (.leaf 1) (.leaf 2)) (.leaf 0)] := by
    have one : (Token.operand "1").toValue = .ok 1 :=
      congrArg Except.ok (by decide +kernel : Operand.value ['1'] = 1)
    have two : (Token.operand "2").toValue = .ok 2 :=
      congrArg Except.ok (by decide +kernel : Operand.value ['2'] = 2)
    have zero : (Token.operand "0").toValue = .ok 0 :=
      congrArg Except.ok (by decide +kernel : Operand.value ['0'] = 0)
    simp only [all_eq_gather, Cut.gather, Cut.outcome, Cut.all, Cut.shift, List.map_cons, List.map_nil,
      List.flatMapM_cons, List.flatMapM_nil, all_singleton, one, two, zero]
    rfl
  exact ⟨_, _, rfl, rfl, h, all_eq_sorted_readings h⟩

end Bracketing.Tree
