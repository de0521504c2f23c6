import Bracketing.Proofs.FaultLaws
import Bracketing.Proofs.ParallelLaws

namespace Bracketing

/-- The leftmost malformed token among those at the places of one parity. -/
structure IsLeftmost (parity : Nat) (ts : List Token) (place : Nat) : Prop where
  parity_eq : place % 2 = parity
  malformed : faultAt? ts place ≠ none
  before : ∀ i < place, i % 2 = parity → faultAt? ts i = none

theorem IsLeftmost.unique {parity : Nat} {ts : List Token} {i j : Nat} (hi : IsLeftmost parity ts i)
    (hj : IsLeftmost parity ts j) : i = j := by
  rcases Nat.lt_trichotomy i j with h | h | h
  · exact absurd (hj.before i h hi.parity_eq) hi.malformed
  · exact h
  · exact absurd (hi.before j h hj.parity_eq) hj.malformed

theorem IsLeftmost.add_two {t m : Token} {ts : List Token} {i : Nat} (h : IsLeftmost 1 ts i)
    (hm : m.faultAt? 1 = none) : IsLeftmost 1 (t :: m :: ts) (i + 2) := by
  refine ⟨by simpa using h.parity_eq, by simpa using h.malformed, fun j hj hodd => ?_⟩
  match j with
  | 0 => cases hodd
  | 1 => exact hm
  | j + 2 =>
    rw [faultAt?_cons_add_two]
    exact h.before j (by omega) (by omega)

theorem turn_lt_turn {i j : Nat} (h : i < j) (hparity : i % 2 = j % 2) : turn i < turn j := by
  unfold turn
  split <;> split <;> omega

theorem IsFirst.isLeftmost {ts : List Token} {i : Nat} (h : IsFirst ts i) :
    IsLeftmost (i % 2) ts i :=
  ⟨rfl, h.1, fun j hj hparity => h.2 j (turn_lt_turn hj hparity)⟩

theorem IsFirst.even_of_ne {ts : List Token} {i j : Nat} (hi : IsFirst ts i)
    (hj : IsLeftmost 1 ts j) (hne : i ≠ j) : i % 2 = 0 := by
  rcases Nat.mod_two_eq_zero_or_one i with heven | hodd
  · exact heven
  · exact absurd ((hodd ▸ hi.isLeftmost).unique hj) hne

theorem fault_eq_operator_of_odd {ts : List Token} {i : Nat} {fault : Fault}
    (h : faultAt? ts i = some fault) (hodd : i % 2 = 1) : ∃ text, fault = .operator text := by
  obtain ⟨t, -, ht⟩ := Option.bind_eq_some_iff.1 h
  cases t with
  | operand text =>
    rw [Token.faultAt?, if_pos hodd] at ht
    cases ht
    exact ⟨text, rfl⟩
  | operator op =>
    rw [Token.faultAt?, if_pos hodd] at ht
    cases ht

theorem fault_eq_operand_of_even {ts : List Token} {i : Nat} {fault : Fault}
    (h : faultAt? ts i = some fault) (heven : i % 2 = 0) : ∃ text, fault = .operand text := by
  have hnot : ¬ i % 2 = 1 := by omega
  obtain ⟨t, -, ht⟩ := Option.bind_eq_some_iff.1 h
  cases t with
  | operand text =>
    rw [Token.faultAt?, if_neg hnot] at ht
    split at ht
    · cases ht
    · cases ht
      exact ⟨text, rfl⟩
  | operator op =>
    rw [Token.faultAt?, if_neg hnot] at ht
    cases ht
    exact ⟨op.text, rfl⟩

namespace Evaluation

theorem operators_cons_cons (t m : Token) (ts : List Token) :
    operators (t :: m :: ts) = do
      let op ← m.toOperator
      let ops ← operators ts
      return op :: ops := by
  simp only [operators, Cut.all, List.mapM_cons, List.mapM_map]
  rfl

theorem faultAt?_of_operators_ok : ∀ {ts : List Token} {ops : List Operator},
    operators ts = .ok ops → ∀ i, i % 2 = 1 → faultAt? ts i = none
  | [], _, _ => fun i _ => faultAt?_nil i
  | [t], _, _ => fun i hodd => by
    cases i with
    | zero => cases hodd
    | succ i => rfl
  | t :: m :: ts, _, h => fun i hodd => by
    rw [operators_cons_cons, Except.bind_eq_ok_iff] at h
    obtain ⟨op, hm, h⟩ := h
    obtain ⟨ops, hts, -⟩ := Except.bind_eq_ok_iff.1 h
    match i with
    | 0 => cases hodd
    | 1 => exact Token.faultAt?_one_of_toOperator hm
    | i + 2 =>
      rw [faultAt?_cons_add_two]
      exact faultAt?_of_operators_ok hts i (by omega)

theorem isLeftmost_of_operators_error : ∀ {ts : List Token} {fault : Fault},
    operators ts = .error fault → ∃ i, IsLeftmost 1 ts i ∧ faultAt? ts i = some fault
  | [], _, h => by cases h
  | [t], _, h => by cases h
  | t :: m :: ts, fault, h => by
    rw [operators_cons_cons, Except.bind_eq_error_iff] at h
    rcases h with hm | ⟨op, hm, h⟩
    · rw [Token.toOperator_eq_error_iff] at hm
      refine ⟨1, ⟨rfl, by simp [hm], fun i hi hodd => ?_⟩, hm⟩
      omega
    · rcases Except.bind_eq_error_iff.1 h with hts | ⟨ops, -, h⟩
      · obtain ⟨i, hi, hfault⟩ := isLeftmost_of_operators_error hts
        have hone := Token.faultAt?_one_of_toOperator hm
        exact ⟨i + 2, hi.add_two hone, (faultAt?_cons_add_two t m ts i).trans hfault⟩
      · cases h

theorem parallel_of_operators_error {ts : List Token} {fault : Fault} (h : threshold < ts.length)
    (hops : operators ts = .error fault) : parallel ts = .error fault := by
  rw [parallel_of_long h, hops]
  rfl

theorem parallel_of_sides_error {t m : Token} {ts : List Token} {ops : List Operator}
    {fault : Fault} (h : threshold < (t :: m :: ts).length) (hops : operators (t :: m :: ts) = .ok ops)
    (hsides : sides parallel ⟨[t], m, ts⟩ = .error fault) :
    parallel (t :: m :: ts) = .error fault := by
  have hparts : (Cut.all (t :: m :: ts)).mapM (sides parallel) = .error fault := by
    rw [Cut.all, List.mapM_cons, hsides]
    rfl
  rw [parallel_of_long h, Except.bind_eq_error_iff]
  exact .inr ⟨ops, hops, Except.bind_eq_error_iff.2 (.inl hparts)⟩

theorem parallel_eq_error_of_read : ∀ {ts : List Token} {ops : List Operator} {fault : Fault},
    operators ts = .ok ops → Item.read ts = .error fault → parallel ts = .error fault
  | [], _, _, _, h => by cases h
  | [t], _, _, _, h => by
    rw [parallel_of_short (by simp [threshold])]
    exact sequential_eq_error_iff_read.2 h
  | t :: m :: ts, ops, fault, hops, h => by
    cases Nat.lt_or_ge threshold (t :: m :: ts).length with
    | inr hshort =>
      rw [parallel_of_short hshort]
      exact sequential_eq_error_iff_read.2 h
    | inl hlong =>
      apply parallel_of_sides_error hlong hops
      rw [operators_cons_cons, Except.bind_eq_ok_iff] at hops
      obtain ⟨op, hm, hops⟩ := hops
      obtain ⟨rest, hrest, -⟩ := Except.bind_eq_ok_iff.1 hops
      have hleft : parallel [t] = t.toValue.map ([·]) := by
        rw [parallel_of_short (by simp [threshold]), sequential_singleton]
      rcases Item.read_cons_cons_eq_error_iff.1 h with hm' | ⟨-, -, ht | ⟨x, ht, hts⟩⟩
      · rw [hm] at hm'
        cases hm'
      · simp only [sides, hleft, ht]
        rfl
      · simp only [sides, hleft, ht, parallel_eq_error_of_read hrest hts]
        rfl

theorem parallel_eq_sequential {ts : List Token} {ops : List Operator}
    (hops : operators ts = .ok ops) : parallel ts = sequential ts := by
  cases h : sequential ts with
  | ok values => rw [← Except.toOption_eq_some_iff, toOption_parallel, h]; rfl
  | error fault =>
    exact parallel_eq_error_of_read hops (sequential_eq_error_iff_read.1 h)

end Evaluation

theorem exists_isFirst_of_malformed {ts : List Token} (h : ∃ i, faultAt? ts i ≠ none) :
    ∃ i fault, Evaluation.sequential ts = .error fault ∧ IsFirst ts i ∧
      faultAt? ts i = some fault := by
  have htells := Item.read_tells_first ts
  cases hread : Item.read ts with
  | ok items =>
    obtain ⟨i, hi⟩ := h
    exact absurd (htells.ok_iff.1 ⟨items, hread⟩ i) hi
  | error fault =>
    obtain ⟨i, hi, hfault⟩ := (htells.error_iff fault).1 hread
    exact ⟨i, fault, Evaluation.sequential_eq_error_iff_read.2 hread, hi, hfault⟩

theorem turn_lt_turn_of_even_of_odd {i j : Nat} (hi : i % 2 = 0) (hj : j % 2 = 1) :
    turn i < turn j ↔ i + 1 < j := by
  rw [turn, turn, if_neg (by omega), if_pos hj]
  omega

namespace Evaluation

variable {ts : List Token}

theorem parallel_tells_leftmost (h : threshold < ts.length) (hts : ∃ i, faultAt? ts i ≠ none) :
    ∃ i fault, parallel ts = .error fault ∧ faultAt? ts i = some fault ∧
      (IsLeftmost 1 ts i ∨ (∀ j, j % 2 = 1 → faultAt? ts j = none) ∧ IsLeftmost 0 ts i) := by
  cases hops : operators ts with
  | error fault =>
    obtain ⟨i, hi, hfault⟩ := isLeftmost_of_operators_error hops
    exact ⟨i, fault, parallel_of_operators_error h hops, hfault, .inl hi⟩
  | ok ops =>
    have hodd := faultAt?_of_operators_ok hops
    obtain ⟨i, fault, hsequential, hi, hfault⟩ := exists_isFirst_of_malformed hts
    have heven : i % 2 = 0 := by
      rcases Nat.mod_two_eq_zero_or_one i with heven | hi'
      · exact heven
      · exact absurd (hodd i hi') hi.1
    refine ⟨i, fault, (parallel_eq_sequential hops).trans hsequential, hfault, .inr ⟨hodd, ?_⟩⟩
    exact heven ▸ hi.isLeftmost

theorem exists_even_of_parallel_ne_sequential (h : parallel ts ≠ sequential ts) :
    threshold < ts.length ∧
      ∃ j, IsLeftmost 1 ts j ∧ ∃ i, i % 2 = 0 ∧ faultAt? ts i ≠ none ∧ i + 1 < j := by
  have hlong : threshold < ts.length := by
    apply Nat.lt_of_not_le
    intro hshort
    exact h (parallel_of_short hshort)
  cases hops : operators ts with
  | ok ops => exact absurd (parallel_eq_sequential hops) h
  | error fault =>
    obtain ⟨j, hj, hfault⟩ := isLeftmost_of_operators_error hops
    obtain ⟨i, fault', hsequential, hi, hfault'⟩ := exists_isFirst_of_malformed ⟨j, hj.malformed⟩
    have hne : i ≠ j := by
      rintro rfl
      rw [hfault] at hfault'
      cases hfault'
      exact h ((parallel_of_operators_error hlong hops).trans hsequential.symm)
    have heven := hi.even_of_ne hj hne
    have hturn : turn i < turn j := by
      rcases Nat.lt_trichotomy (turn i) (turn j) with hlt | heq | hgt
      · exact hlt
      · exact absurd (turn_injective heq) hne
      · exact absurd (hi.2 j hgt) hj.malformed
    refine ⟨hlong, j, hj, i, heven, hi.1, ?_⟩
    exact (turn_lt_turn_of_even_of_odd heven hj.parity_eq).1 hturn

theorem parallel_ne_sequential_of_even {i j : Nat} (h : threshold < ts.length)
    (hj : IsLeftmost 1 ts j) (heven : i % 2 = 0) (hi : faultAt? ts i ≠ none) (hij : i + 1 < j) :
    parallel ts ≠ sequential ts := by
  cases hops : operators ts with
  | ok ops => exact absurd (faultAt?_of_operators_ok hops j hj.parity_eq) hj.malformed
  | error fault =>
    obtain ⟨j', hj', hfault⟩ := isLeftmost_of_operators_error hops
    obtain ⟨k, fault', hsequential, hk, hfault'⟩ := exists_isFirst_of_malformed ⟨j, hj.malformed⟩
    have hkj : k ≠ j := by
      rintro rfl
      exact hi (hk.2 i ((turn_lt_turn_of_even_of_odd heven hj.parity_eq).2 hij))
    have hkeven := hk.even_of_ne hj hkj
    -- One of the two faults is that of an operator, the other that of an operand.
    obtain ⟨text, rfl⟩ := fault_eq_operator_of_odd hfault hj'.parity_eq
    obtain ⟨text', rfl⟩ := fault_eq_operand_of_even hfault' hkeven
    rw [parallel_of_operators_error h hops, hsequential]
    simp

end Evaluation

theorem Strategy.evaluate_parallel_fault {ts : List Token} (h : ∃ i, faultAt? ts i ≠ none) :
    (ts.length ≤ 9 → ∃ fault, Strategy.parallel.evaluate ts = .error fault ∧
        Strategy.sequential.evaluate ts = .error fault) ∧
      (9 < ts.length → ∃ i fault,
        Strategy.parallel.evaluate ts = .error fault ∧ faultAt? ts i = some fault ∧
          (IsLeftmost 1 ts i ∨ (∀ j, j % 2 = 1 → faultAt? ts j = none) ∧ IsLeftmost 0 ts i)) ∧
      (Strategy.parallel.evaluate ts ≠ Strategy.sequential.evaluate ts ↔
        9 < ts.length ∧ ∃ j, IsLeftmost 1 ts j ∧
          ∃ i, i % 2 = 0 ∧ faultAt? ts i ≠ none ∧ i + 1 < j) := by
  refine ⟨fun hshort => ?_, fun hlong => Evaluation.parallel_tells_leftmost hlong h, ?_, ?_⟩
  · obtain ⟨-, fault, hsequential, -⟩ := exists_isFirst_of_malformed h
    exact ⟨fault, (Evaluation.parallel_of_short hshort).trans hsequential, hsequential⟩
  · exact Evaluation.exists_even_of_parallel_ne_sequential
  · rintro ⟨hlong, j, hj, i, heven, hi, hij⟩
    exact Evaluation.parallel_ne_sequential_of_even hlong hj heven hi hij

def twofold : List Token :=
  [.operand "x", .operator .add, .operand "1", .operand "y", .operand "2", .operator .add,
    .operand "3", .operator .add, .operand "4", .operator .add, .operand "5"]

theorem Strategy.evaluate_parallel_fault_twofold :
    (∃ i, faultAt? twofold i ≠ none) ∧
      Strategy.parallel.evaluate twofold = .error (.operator "y") ∧
      Strategy.parallel.evaluate twofold ≠ Strategy.sequential.evaluate twofold := by
  have hx : faultAt? twofold 0 ≠ none := by decide +kernel
  have hy : IsLeftmost 1 twofold 3 := ⟨rfl, by decide +kernel, by decide +kernel⟩
  obtain ⟨-, hlong, hne⟩ := evaluate_parallel_fault ⟨0, hx⟩
  refine ⟨⟨0, hx⟩, ?_, hne.2 ⟨by decide, 3, hy, 0, rfl, hx, by decide⟩⟩
  obtain ⟨i, fault, hparallel, hfault, hi | hi⟩ := hlong (by decide)
  · cases hi.unique hy
    rw [hparallel, ← Option.some.inj hfault]
  · exact absurd (hi.1 3 rfl) hy.malformed

end Bracketing
