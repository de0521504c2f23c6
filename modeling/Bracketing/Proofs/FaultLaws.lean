import Bracketing.Proofs.EnumerationLaws
import Bracketing.Proofs.MemoizedLaws

/-!
Which fault of a token list is told. The places are visited by twos, the odd one of each two first,
and the first malformed token met this way is told, whatever else there is. For lists of any length
the first cut alone decides it.
-/

namespace Bracketing

/-- What is wrong with a token: at an odd place an operand, at an even one all but numerals. -/
def Token.faultAt? (place : Nat) : Token → Option Fault
  | .operand text =>
    if place % 2 = 1 then some (.operator text)
    else if Operand.isNumeral text.toList then none
    else some (.operand text)
  | .operator op => if place % 2 = 1 then none else some (.operand op.text)

def faultAt? (ts : List Token) (place : Nat) : Option Fault :=
  ts[place]?.bind (Token.faultAt? place)

/-- When a place has its turn: the order is 1, 0, 3, 2, 5, 4, and so on. -/
def turn (place : Nat) : Nat := if place % 2 = 1 then place - 1 else place + 1

def IsFirst (ts : List Token) (place : Nat) : Prop :=
  faultAt? ts place ≠ none ∧ ∀ i, turn i < turn place → faultAt? ts i = none

/-- There is an outcome unless a token is malformed, and then it is the fault of the first one. -/
structure TellsFirst (ts : List Token) (outcome : Except Fault α) : Prop where
  ok_iff : (∃ a, outcome = .ok a) ↔ ∀ i, faultAt? ts i = none
  error_iff : ∀ fault, outcome = .error fault ↔ ∃ i, IsFirst ts i ∧ faultAt? ts i = some fault

namespace Token

theorem faultAt?_add_two (place : Nat) (t : Token) :
    t.faultAt? (place + 2) = t.faultAt? place := by
  cases t <;> simp only [faultAt?, Nat.add_mod_right]

theorem toValue_eq_error_iff {t : Token} {fault : Fault} :
    t.toValue = .error fault ↔ t.faultAt? 0 = some fault := by
  cases t with
  | operator op => simp [toValue, faultAt?]
  | operand text =>
    by_cases h : Operand.isNumeral text.toList
    · simp [toValue, faultAt?, Operand.read_of_isNumeral h, h]
    · simp [toValue, faultAt?, Operand.read_of_not_isNumeral h, h]

theorem toOperator_eq_error_iff {t : Token} {fault : Fault} :
    t.toOperator = .error fault ↔ t.faultAt? 1 = some fault := by
  cases t <;> simp [toOperator, faultAt?]

theorem faultAt?_zero_of_toValue {t : Token} {x : Float} (h : t.toValue = .ok x) :
    t.faultAt? 0 = none :=
  Except.eq_none_of_ok toValue_eq_error_iff h

theorem faultAt?_one_of_toOperator {t : Token} {op : Operator} (h : t.toOperator = .ok op) :
    t.faultAt? 1 = none :=
  Except.eq_none_of_ok toOperator_eq_error_iff h

end Token

@[simp] theorem faultAt?_nil (i : Nat) : faultAt? [] i = none := rfl

@[simp] theorem faultAt?_cons_zero (t : Token) (ts : List Token) :
    faultAt? (t :: ts) 0 = t.faultAt? 0 := rfl

@[simp] theorem faultAt?_cons_one (t m : Token) (ts : List Token) :
    faultAt? (t :: m :: ts) 1 = m.faultAt? 1 := rfl

@[simp] theorem faultAt?_cons_add_two (t m : Token) (ts : List Token) (i : Nat) :
    faultAt? (t :: m :: ts) (i + 2) = faultAt? ts i := by
  simp only [faultAt?, List.getElem?_cons_succ]
  congr 1
  funext t
  exact Token.faultAt?_add_two i t

theorem turn_add_two (i : Nat) : turn (i + 2) = turn i + 2 := by
  unfold turn
  split <;> split <;> omega

theorem turn_injective {i j : Nat} (h : turn i = turn j) : i = j := by
  unfold turn at h
  split at h <;> split at h <;> omega

theorem IsFirst.unique {ts : List Token} {i j : Nat} (hi : IsFirst ts i) (hj : IsFirst ts j) :
    i = j := by
  apply turn_injective
  rcases Nat.lt_trichotomy (turn i) (turn j) with h | h | h
  · exact absurd (hj.2 i h) hi.1
  · exact h
  · exact absurd (hi.2 j h) hj.1

namespace TellsFirst

variable {ts : List Token}

theorem of_ok {a : α} (h : ∀ i, faultAt? ts i = none) : TellsFirst ts (.ok a) where
  ok_iff := by simp [h]
  error_iff := by simp [h]

theorem of_error {i : Nat} {fault : Fault} (h : IsFirst ts i)
    (hfault : faultAt? ts i = some fault) :
    TellsFirst ts (.error fault : Except Fault α) where
  ok_iff := by
    constructor
    · rintro ⟨a, ⟨⟩⟩
    · intro hnone
      exact absurd (hnone i) h.1
  error_iff := by
    intro fault'
    constructor
    · rintro ⟨⟩
      exact ⟨i, h, hfault⟩
    · rintro ⟨j, hj, hfault'⟩
      rw [hj.unique h, hfault] at hfault'
      rw [Option.some.inj hfault']

theorem of_error_iff {x : Except Fault α} {y : Except Fault β} (h : TellsFirst ts x)
    (hxy : ∀ fault, y = .error fault ↔ x = .error fault) : TellsFirst ts y := by
  cases y with
  | error fault =>
    obtain ⟨i, hi, hfault⟩ := (h.error_iff fault).1 ((hxy fault).1 rfl)
    exact of_error hi hfault
  | ok b =>
    apply of_ok
    apply h.ok_iff.1
    cases x with
    | ok a => exact ⟨a, rfl⟩
    | error fault => cases (hxy fault).2 rfl

end TellsFirst

namespace IsFirst

theorem one {ts : List Token} (h : faultAt? ts 1 ≠ none) : IsFirst ts 1 :=
  ⟨h, fun _ hj => absurd hj (Nat.not_lt_zero _)⟩

theorem zero {ts : List Token} (h : faultAt? ts 0 ≠ none) (hone : faultAt? ts 1 = none) :
    IsFirst ts 0 := by
  refine ⟨h, fun j hj => ?_⟩
  have hturn : turn j = turn 1 := Nat.lt_one_iff.1 hj
  exact turn_injective hturn ▸ hone

theorem add_two {t m : Token} {ts : List Token} {i : Nat} (h : IsFirst ts i)
    (ht : t.faultAt? 0 = none) (hm : m.faultAt? 1 = none) : IsFirst (t :: m :: ts) (i + 2) := by
  refine ⟨by simpa using h.1, fun j hj => ?_⟩
  match j with
  | 0 => exact ht
  | 1 => exact hm
  | j + 2 =>
    rw [turn_add_two, turn_add_two] at hj
    rw [faultAt?_cons_add_two]
    exact h.2 j (by omega)

end IsFirst

theorem forall_faultAt?_cons_cons_iff {t m : Token} {ts : List Token} :
    (∀ i, faultAt? (t :: m :: ts) i = none) ↔
      t.faultAt? 0 = none ∧ m.faultAt? 1 = none ∧ ∀ i, faultAt? ts i = none := by
  constructor
  · intro h
    refine ⟨h 0, h 1, fun i => ?_⟩
    rw [← faultAt?_cons_add_two t m]
    exact h (i + 2)
  · rintro ⟨ht, hm, hts⟩ i
    match i with
    | 0 => exact ht
    | 1 => exact hm
    | i + 2 => rw [faultAt?_cons_add_two, hts]

namespace Item

theorem read_tells_first_of_single (t : Token) : TellsFirst [t] (read [t]) := by
  cases ht : t.toValue with
  | error fault =>
    have hread : read [t] = .error fault := by simp [read, ht, bind, Except.bind]
    rw [Token.toValue_eq_error_iff] at ht
    rw [hread]
    exact .of_error (.zero (by simp [ht]) rfl) ht
  | ok x =>
    have hread : read [t] = .ok [.number x] := by
      simp [read, ht, bind, Except.bind, pure, Except.pure]
    rw [hread]
    apply TellsFirst.of_ok
    intro i
    cases i with
    | zero => exact Token.faultAt?_zero_of_toValue ht
    | succ i => rfl

theorem read_tells_first : ∀ ts : List Token, TellsFirst ts (read ts)
  | [] => .of_ok faultAt?_nil
  | [t] => read_tells_first_of_single t
  | t :: m :: ts => by
    cases hm : m.toOperator with
    | error fault =>
      rw [read_cons_cons_eq_error_iff.2 (.inl hm)]
      rw [Token.toOperator_eq_error_iff] at hm
      exact .of_error (.one (by simp [hm])) hm
    | ok op =>
      have hone := Token.faultAt?_one_of_toOperator hm
      cases ht : t.toValue with
      | error fault =>
        rw [read_cons_cons_eq_error_iff.2 (.inr ⟨op, hm, .inl ht⟩)]
        rw [Token.toValue_eq_error_iff] at ht
        exact .of_error (.zero (by simp [ht]) hone) ht
      | ok x =>
        have hzero := Token.faultAt?_zero_of_toValue ht
        have ih := read_tells_first ts
        cases hts : read ts with
        | error fault =>
          rw [read_cons_cons_eq_error_iff.2 (.inr ⟨op, hm, .inr ⟨x, ht, hts⟩⟩)]
          obtain ⟨i, hi, hfault⟩ := (ih.error_iff fault).1 hts
          exact .of_error (hi.add_two hzero hone) ((faultAt?_cons_add_two t m ts i).trans hfault)
        | ok rest =>
          rw [read_cons_cons_eq_ok_iff.2 ⟨op, x, rest, hm, ht, hts, rfl⟩]
          have hrest := ih.ok_iff.1 ⟨rest, hts⟩
          exact .of_ok (forall_faultAt?_cons_cons_iff.2 ⟨hzero, hone, hrest⟩)

end Item

theorem Tree.exists_all_of_read {ts : List Token} {items : List Item}
    (h : Item.read ts = .ok items) : ∃ trees, all ts = .ok trees := by
  induction ts using Cut.sides_induction generalizing items with
  | nil => exact ⟨[], all_nil⟩
  | single t =>
    obtain ⟨x, hx, -⟩ := Item.read_singleton_eq_ok_iff.1 h
    exact ⟨[.leaf x], all_singleton_eq_ok_iff.2 ⟨x, hx, rfl⟩⟩
  | long t m ts ihl ihr =>
    have hcut : ∀ c ∈ Cut.all (t :: m :: ts), ∃ trees, Cut.outcome join all c = .ok trees := by
      intro c hc
      obtain ⟨op, ls, rs, hm, hls, hrs, -⟩ := (Item.read_eq_ok_iff_of_cut hc).1 h
      obtain ⟨lefts, hlefts⟩ := ihl c hc hls
      obtain ⟨rights, hrights⟩ := ihr c hc hrs
      exact ⟨_, Cut.outcome_eq_ok_iff.2 ⟨op, lefts, rights, hm, hlefts, hrights, rfl⟩⟩
    rw [all_eq_gather]
    exact Except.exists_flatMapM_eq_ok hcut

theorem Tree.all_eq_error_iff_read {ts : List Token} {fault : Fault} :
    all ts = .error fault ↔ Item.read ts = .error fault := by
  constructor
  · intro h
    cases hread : Item.read ts with
    | error fault' =>
      rw [all_of_read_error hread] at h
      cases h
      rfl
    | ok items =>
      obtain ⟨trees, htrees⟩ := exists_all_of_read hread
      rw [htrees] at h
      cases h
  · exact all_of_read_error

theorem Evaluation.sequential_eq_error_iff_read {ts : List Token} {fault : Fault} :
    sequential ts = .error fault ↔ Item.read ts = .error fault := by
  rw [sequential_eq_values_all, ← Tree.all_eq_error_iff_read]
  cases Tree.all ts <;> simp [Except.map]

theorem tellsFirst_sequential_memoized_trees (ts : List Token) :
    TellsFirst ts (Strategy.sequential.evaluate ts) ∧
      TellsFirst ts (Strategy.memoized.evaluate ts) ∧ TellsFirst ts (Tree.all ts) := by
  have hread := Item.read_tells_first ts
  have hsequential : TellsFirst ts (Evaluation.sequential ts) :=
    hread.of_error_iff fun _ => Evaluation.sequential_eq_error_iff_read
  refine ⟨hsequential, ?_, hread.of_error_iff fun _ => Tree.all_eq_error_iff_read⟩
  rw [show Strategy.memoized.evaluate ts = _ from Evaluation.memoized_eq_sequential ts]
  exact hsequential

end Bracketing
