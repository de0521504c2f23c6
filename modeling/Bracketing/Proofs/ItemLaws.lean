import Bracketing.Proofs.SequentialLaws

namespace Bracketing

inductive Item
  | number (x : Float)
  | operator (op : Operator)
  deriving DecidableEq

def Item.read : List Token → Except Fault (List Item)
  | [] => .ok []
  | [t] => return [.number (← t.toValue)]
  | t :: m :: ts => do
    let op ← m.toOperator
    let x ← t.toValue
    return .number x :: .operator op :: (← read ts)

def Tree.items : Tree → List Item
  | .leaf x => [.number x]
  | .node op l r => l.items ++ .operator op :: r.items

theorem Tree.length_items (t : Tree) : t.items.length = 2 * t.operators + 1 := by
  induction t with
  | leaf x => rfl
  | node op l r ihl ihr =>
    simp only [items, operators, List.length_append, List.length_cons, ihl, ihr]
    omega

theorem Tree.items_eq_singleton_iff {t : Tree} {x : Float} :
    t.items = [.number x] ↔ t = .leaf x := by
  cases t with
  | leaf y => simp [items]
  | node op l r =>
    have hlen := (node op l r).length_items
    constructor
    · intro h
      rw [h, operators, List.length_singleton] at hlen
      omega
    · intro h
      cases h

theorem Token.toOperator_eq_ok_iff {t : Token} {op : Operator} :
    t.toOperator = .ok op ↔ t = .operator op := by
  cases t <;> simp [toOperator]

namespace Item

theorem read_singleton_eq_ok_iff {t : Token} {items : List Item} :
    read [t] = .ok items ↔ ∃ x, t.toValue = .ok x ∧ [.number x] = items := by
  simp only [read, Except.bind_eq_ok_iff]
  simp [pure, Except.pure]

theorem read_cons_cons_eq_ok_iff {t m : Token} {ts : List Token} {items : List Item} :
    read (t :: m :: ts) = .ok items ↔
      ∃ op x rest, m.toOperator = .ok op ∧ t.toValue = .ok x ∧ read ts = .ok rest ∧
        .number x :: .operator op :: rest = items := by
  simp only [read, Except.bind_eq_ok_iff]
  simp [pure, Except.pure]

theorem read_cons_cons_eq_error_iff {t m : Token} {ts : List Token} {fault : Fault} :
    read (t :: m :: ts) = .error fault ↔ m.toOperator = .error fault ∨
      ∃ op, m.toOperator = .ok op ∧ (t.toValue = .error fault ∨
        ∃ x, t.toValue = .ok x ∧ read ts = .error fault) := by
  simp only [read, Except.bind_eq_error_iff]
  simp [pure, Except.pure]

theorem length_of_read {ts : List Token} {items : List Item} (h : read ts = .ok items) :
    items.length = ts.length := by
  match ts with
  | [] =>
    cases h
    rfl
  | [t] =>
    obtain ⟨x, -, rfl⟩ := read_singleton_eq_ok_iff.1 h
    rfl
  | t :: m :: ts =>
    obtain ⟨op, x, rest, -, -, hrest, rfl⟩ := read_cons_cons_eq_ok_iff.1 h
    rw [List.length_cons, List.length_cons, length_of_read hrest]
    rfl

theorem operator_mem_of_read {ts : List Token} {items : List Item} {op : Operator}
    (h : read ts = .ok items) (hop : .operator op ∈ items) : .operator op ∈ ts := by
  match ts with
  | [] =>
    cases h
    cases hop
  | [t] =>
    obtain ⟨x, -, rfl⟩ := read_singleton_eq_ok_iff.1 h
    cases List.mem_singleton.1 hop
  | t :: m :: ts =>
    obtain ⟨p, x, rest, hm, -, hrest, rfl⟩ := read_cons_cons_eq_ok_iff.1 h
    rcases List.mem_cons.1 hop with hop | hop
    · cases hop
    · rcases List.mem_cons.1 hop with hop | hop
      · cases hop
        rw [Token.toOperator_eq_ok_iff.1 hm]
        exact List.mem_cons_of_mem t List.mem_cons_self
      · have hmem := operator_mem_of_read hrest hop
        exact List.mem_cons_of_mem t (List.mem_cons_of_mem m hmem)

theorem read_append_eq_ok_iff {m : Token} {right : List Token} {items : List Item} :
    ∀ {left : List Token}, left.length % 2 = 1 →
      (read (left ++ m :: right) = .ok items ↔
        ∃ op ls rs, m.toOperator = .ok op ∧ read left = .ok ls ∧ read right = .ok rs ∧
          ls ++ .operator op :: rs = items)
  | [], hodd => absurd hodd (by decide)
  | [t], _ => by
    rw [List.singleton_append, read_cons_cons_eq_ok_iff]
    constructor
    · rintro ⟨op, x, rs, hm, hx, hrs, rfl⟩
      exact ⟨op, [.number x], rs, hm, read_singleton_eq_ok_iff.2 ⟨x, hx, rfl⟩, hrs, rfl⟩
    · rintro ⟨op, ls, rs, hm, hls, hrs, rfl⟩
      obtain ⟨x, hx, rfl⟩ := read_singleton_eq_ok_iff.1 hls
      exact ⟨op, x, rs, hm, hx, hrs, rfl⟩
  | t :: o :: left, hodd => by
    have hleft := odd_length_cons_cons_iff.1 hodd
    simp only [List.cons_append, read_cons_cons_eq_ok_iff]
    constructor
    · rintro ⟨p, x, rest, ho, hx, hrest, rfl⟩
      obtain ⟨op, ls, rs, hm, hls, hrs, rfl⟩ := (read_append_eq_ok_iff hleft).1 hrest
      exact ⟨op, .number x :: .operator p :: ls, rs, hm, ⟨p, x, ls, ho, hx, hls, rfl⟩, hrs, rfl⟩
    · rintro ⟨op, _, rs, hm, ⟨p, x, ls, ho, hx, hls, rfl⟩, hrs, rfl⟩
      exact ⟨p, x, _, ho, hx, (read_append_eq_ok_iff hleft).2 ⟨op, ls, rs, hm, hls, hrs, rfl⟩, rfl⟩

theorem read_eq_ok_iff_of_cut {c : Cut} {ts : List Token} {items : List Item}
    (hc : c ∈ Cut.all ts) :
    read ts = .ok items ↔ ∃ op ls rs, c.middle.toOperator = .ok op ∧ read c.left = .ok ls ∧
      read c.right = .ok rs ∧ ls ++ .operator op :: rs = items := by
  rw [← Cut.append_of_mem hc]
  exact read_append_eq_ok_iff (Cut.odd_length_left hc)

theorem exists_cut_of_read {ts : List Token} {ls rs : List Item} {op : Operator}
    (h : read ts = .ok (ls ++ .operator op :: rs)) (hodd : ls.length % 2 = 1) :
    ∃ c ∈ Cut.all ts,
      c.middle.toOperator = .ok op ∧ read c.left = .ok ls ∧ read c.right = .ok rs := by
  have hlen := length_of_read h
  rw [List.length_append, List.length_cons] at hlen
  have hlt : ls.length < ts.length := by omega
  have hleft : (ts.take ls.length).length = ls.length := by
    rw [List.length_take, Nat.min_eq_left (Nat.le_of_lt hlt)]
  have hc : ⟨ts.take ls.length, ts[ls.length], ts.drop (ls.length + 1)⟩ ∈ Cut.all ts := by
    rw [Cut.mem_all_iff, hleft]
    refine ⟨?_, hodd⟩
    rw [← List.drop_eq_getElem_cons hlt, List.take_append_drop]
  obtain ⟨p, xs, ys, hm, hxs, hys, heq⟩ := (read_eq_ok_iff_of_cut hc).1 h
  have hsame : xs.length = ls.length := (length_of_read hxs).trans hleft
  obtain ⟨rfl, hrest⟩ := List.append_inj heq hsame
  cases hrest
  exact ⟨_, hc, hm, hxs, hys⟩

end Item

theorem Tree.all_of_read_error {ts : List Token} {fault : Fault}
    (h : Item.read ts = .error fault) : all ts = .error fault := by
  match ts with
  | [] => cases h
  | [t] =>
    have ht : t.toValue = .error fault := by
      simpa [Item.read, Except.bind_eq_error_iff, pure, Except.pure] using h
    rw [all_singleton, ht]
    rfl
  | t :: m :: ts =>
    rw [all_eq_gather]
    apply Cut.gather_of_first_error
    rw [Cut.outcome_eq_error_iff]
    rcases Item.read_cons_cons_eq_error_iff.1 h with hm | ⟨op, hm, ht | ⟨x, ht, hts⟩⟩
    · exact .inl hm
    · refine .inr ⟨op, hm, .inl ?_⟩
      rw [all_singleton, ht]
      rfl
    · refine .inr ⟨op, hm, .inr ⟨[.leaf x], ?_, all_of_read_error hts⟩⟩
      rw [all_singleton, ht]
      rfl

theorem Tree.exists_read_of_all {ts : List Token} {trees : List Tree} (h : all ts = .ok trees) :
    ∃ items, Item.read ts = .ok items := by
  cases hread : Item.read ts with
  | error fault =>
    rw [all_of_read_error hread] at h
    cases h
  | ok items => exact ⟨items, rfl⟩

end Bracketing
