import Bracketing.Cut
import Bracketing.Proofs.ExceptLaws

namespace Bracketing

theorem odd_length_cons_cons_iff {a b : α} {l : List α} :
    (a :: b :: l).length % 2 = 1 ↔ l.length % 2 = 1 := by
  simp [Nat.add_assoc]

namespace Cut

theorem mem_all_append (m : Token) (right : List Token) :
    ∀ left : List Token, left.length % 2 = 1 → ⟨left, m, right⟩ ∈ all (left ++ m :: right)
  | [], h => absurd h (by decide)
  | [_], _ => List.mem_cons_self
  | t :: o :: left, h => by
    have hleft := odd_length_cons_cons_iff.1 h
    exact List.mem_cons_of_mem _ (List.mem_map.2 ⟨_, mem_all_append m right left hleft, rfl⟩)

theorem mem_all_iff {c : Cut} {ts : List Token} :
    c ∈ all ts ↔ c.left ++ c.middle :: c.right = ts ∧ c.left.length % 2 = 1 := by
  constructor
  · intro h
    exact ⟨append_of_mem h, odd_length_left h⟩
  · rintro ⟨rfl, hodd⟩
    exact mem_all_append c.middle c.right c.left hodd

theorem pairwise_length_left (ts : List Token) :
    (all ts).Pairwise fun c d => c.left.length < d.left.length := by
  fun_induction all ts with
  | case1 t m ts ih =>
    refine List.pairwise_cons.2 ⟨fun d hd => ?_, ?_⟩
    · obtain ⟨c, hc, rfl⟩ := List.mem_map.1 hd
      simp [shift]
    · rw [List.pairwise_map]
      exact ih.imp fun h => by simpa [shift] using h
  | case2 => exact List.Pairwise.nil

/-- To show something of all token lists, show it of a list from the sides of its cuts. -/
@[elab_as_elim]
theorem sides_induction {motive : List Token → Prop} (nil : motive [])
    (single : ∀ t, motive [t])
    (long : ∀ t m ts, (∀ c ∈ all (t :: m :: ts), motive c.left) →
      (∀ c ∈ all (t :: m :: ts), motive c.right) → motive (t :: m :: ts)) :
    ∀ ts, motive ts
  | [] => nil
  | [t] => single t
  | t :: m :: ts => long t m ts (fun c _ => sides_induction nil single long c.left)
      fun c _ => sides_induction nil single long c.right
termination_by ts => ts.length
decreasing_by
  · exact length_left_lt ‹_›
  · exact length_right_lt ‹_›

/-- What a cut comes to if token lists come to `part`: the operator is looked at first, then the left
side, then the right side. -/
def outcome (join : Operator → List α → List α → List α)
    (part : List Token → Except Fault (List α)) (c : Cut) : Except Fault (List α) := do
  let op ← c.middle.toOperator
  let ls ← part c.left
  let rs ← part c.right
  return join op ls rs

def gather (join : Operator → List α → List α → List α)
    (part : List Token → Except Fault (List α)) (ts : List Token) : Except Fault (List α) :=
  (all ts).flatMapM (outcome join part)

variable {join : Operator → List α → List α → List α}
  {part : List Token → Except Fault (List α)}

theorem outcome_eq_ok_iff {c : Cut} {r : List α} :
    outcome join part c = .ok r ↔ ∃ op ls rs, c.middle.toOperator = .ok op ∧
      part c.left = .ok ls ∧ part c.right = .ok rs ∧ join op ls rs = r := by
  simp only [outcome, Except.bind_eq_ok_iff]
  simp [pure, Except.pure]

theorem outcome_eq_error_iff {c : Cut} {fault : Fault} :
    outcome join part c = .error fault ↔ c.middle.toOperator = .error fault ∨
      ∃ op, c.middle.toOperator = .ok op ∧ (part c.left = .error fault ∨
        ∃ ls, part c.left = .ok ls ∧ part c.right = .error fault) := by
  simp only [outcome, Except.bind_eq_error_iff]
  simp [pure, Except.pure]

theorem outcome_filterMap {join' : Operator → List β → List β → List β}
    {part' : List Token → Except Fault (List β)} {p : α → Option β} {c : Cut}
    (hjoin : ∀ op ls rs, (join op ls rs).filterMap p = join' op (ls.filterMap p) (rs.filterMap p))
    (hleft : part' c.left = (part c.left).map (List.filterMap p))
    (hright : part' c.right = (part c.right).map (List.filterMap p)) :
    outcome join' part' c = (outcome join part c).map (List.filterMap p) := by
  rw [outcome, outcome, hleft, hright]
  cases c.middle.toOperator with
  | error fault => rfl
  | ok op =>
    cases part c.left with
    | error fault => rfl
    | ok ls =>
      cases part c.right with
      | error fault => rfl
      | ok rs => exact congrArg Except.ok (hjoin op ls rs).symm

theorem gather_eq_ok_iff {ts : List Token} {r : List α} :
    gather join part ts = .ok r ↔
      ∃ g, (∀ c ∈ all ts, outcome join part c = .ok (g c)) ∧ (all ts).flatMap g = r :=
  Except.flatMapM_eq_ok_iff

theorem gather_of_first_error {t m : Token} {ts : List Token} {fault : Fault}
    (h : outcome join part ⟨[t], m, ts⟩ = .error fault) :
    gather join part (t :: m :: ts) = .error fault := by
  rw [gather, all, List.flatMapM_cons, h]
  rfl

end Cut

end Bracketing
