import Bracketing.Expression
import Bracketing.Proofs.OperatorsFirst
import Bracketing.Proofs.ScanLaws

namespace Bracketing

namespace Token

def areFlat (digit : Char → Bool) : List Token → Bool
  | [.operand text] => text.toList.all digit
  | .operand text :: .operator _ :: ts => text.toList.all digit && areFlat digit ts
  | _ => false

def completeFlat (digit : Char → Bool) : List Token → Bool
  | [] => true
  | .operator _ :: ts => areFlat digit ts
  | .operand text :: ts => areFlat digit (.operand text :: ts)

variable {digit : Char → Bool}

theorem areFlat_glue (c : Char) :
    ∀ ts : List Token, areFlat digit (glue c ts) = (digit c && completeFlat digit ts)
  | [] => by simp [glue, areFlat, completeFlat]
  | .operator op :: ts => by simp [glue, areFlat, completeFlat]
  | [.operand text] => by simp [glue, areFlat, completeFlat]
  | .operand text :: .operator op :: ts => by simp [glue, areFlat, completeFlat, Bool.and_assoc]
  | .operand text :: .operand _ :: ts => by simp [glue, areFlat, completeFlat]

theorem completeFlat_glue (c : Char) (ts : List Token) :
    completeFlat digit (glue c ts) = areFlat digit (glue c ts) := by
  fun_cases glue c ts <;> rfl

end Token

theorem Operator.ofSymbol?_of_digit {digit : Char → Bool} {c : Char}
    (h : ∀ op, digit (symbol op) = false) (hc : digit c = true) : ofSymbol? c = none := by
  rw [Option.eq_none_iff_forall_ne_some]
  intro op hop
  rw [ofSymbol?_eq_some_iff] at hop
  rw [hop, h op] at hc
  cases hc

/-- A text is flat if its tokens are, as long as no symbol of an operator is taken for a digit. -/
theorem completes_eq_scan {digit : Char → Bool} (h : ∀ op, digit (Operator.symbol op) = false)
    (cs : List Char) :
    completes digit false cs = Token.areFlat digit (Token.scan cs) ∧
      completes digit true cs = Token.completeFlat digit (Token.scan cs) := by
  induction cs with
  | nil => exact ⟨rfl, rfl⟩
  | cons c cs ih =>
    cases hc : digit c with
    | true =>
      rw [Token.scan_of_not_symbol (Operator.ofSymbol?_of_digit h hc), Token.completeFlat_glue,
        Token.areFlat_glue, hc]
      simp only [completes, hc, if_true, Bool.true_and]
      exact ⟨ih.2, ih.2⟩
    | false =>
      cases hop : Operator.ofSymbol? c with
      | some op =>
        rw [Token.scan_of_symbol hop]
        simpa [completes, hc, hop, Token.areFlat, Token.completeFlat] using ih.1
      | none =>
        rw [Token.scan_of_not_symbol hop, Token.completeFlat_glue, Token.areFlat_glue, hc]
        simp [completes, hc, hop]

theorem Text.isDecimalDigit_symbol (op : Operator) : isDecimalDigit op.symbol = false := by
  cases op <;> decide

theorem Operator.isDigit_symbol (op : Operator) : op.symbol.isDigit = false := by
  cases op <;> rfl

theorem areFlat_of_validate {text : String} (h : validate text = .ok ()) :
    Token.areFlat Text.isDecimalDigit (Token.ofText text) = true := by
  unfold validate at h
  split at h
  · cases h
  · split at h
    next hflat =>
      rw [Token.ofText, ← (completes_eq_scan Text.isDecimalDigit_symbol _).1]
      exact hflat
    · cases h

theorem exists_operators_of_areFlat {digit : Char → Bool} {ts : List Token}
    (h : Token.areFlat digit ts = true) : ∃ ops, Evaluation.operators ts = .ok ops := by
  fun_induction Token.areFlat digit ts with
  | case1 text => exact ⟨[], rfl⟩
  | case2 text op ts ih =>
    obtain ⟨ops, hops⟩ := ih (Bool.and_eq_true_iff.1 h).2
    refine ⟨op :: ops, ?_⟩
    rw [Evaluation.operators_cons_cons, hops]
    rfl
  | case3 => cases h

def operatorCount (text : String) : Nat :=
  text.toList.countP fun c => (Operator.ofSymbol? c).isSome

@[simp] theorem Token.countP_isOperator_operator (op : Operator) (ts : List Token) :
    (operator op :: ts).countP isOperator = ts.countP isOperator + 1 :=
  List.countP_cons_of_pos rfl

@[simp] theorem Token.countP_isOperator_operand (text : String) (ts : List Token) :
    (operand text :: ts).countP isOperator = ts.countP isOperator :=
  List.countP_cons_of_neg nofun

theorem Token.countP_isOperator_glue (c : Char) (ts : List Token) :
    (glue c ts).countP isOperator = ts.countP isOperator := by
  fun_cases glue c ts <;> simp

theorem Token.countP_isOperator_scan (cs : List Char) :
    (scan cs).countP isOperator = cs.countP fun c => (Operator.ofSymbol? c).isSome := by
  fun_induction scan cs with
  | case1 => rfl
  | case2 c cs op h ih => simp [h, ih]
  | case3 c cs h ih => simp [countP_isOperator_glue, h, ih]

theorem Token.length_of_areFlat {digit : Char → Bool} {ts : List Token}
    (h : areFlat digit ts = true) : ts.length = 2 * ts.countP isOperator + 1 := by
  fun_induction areFlat digit ts with
  | case1 text => rfl
  | case2 text op ts ih =>
    have hrest := ih (Bool.and_eq_true_iff.1 h).2
    simp only [List.length_cons, countP_isOperator_operand, countP_isOperator_operator]
    omega
  | case3 => cases h

theorem length_ofText_of_validate {text : String} (h : validate text = .ok ()) :
    (Token.ofText text).length = 2 * operatorCount text + 1 := by
  rw [Token.length_of_areFlat (areFlat_of_validate h), Token.ofText,
    Token.countP_isOperator_scan, operatorCount]

theorem Strategy.values_eq_of_validate {text : String} (h : validate text = .ok ())
    (s : Strategy) : s.values text = Bracketing.values text := by
  obtain ⟨ops, hops⟩ := exists_operators_of_areFlat (areFlat_of_validate h)
  cases s with
  | sequential => rfl
  | memoized => exact Evaluation.memoized_eq_sequential _
  | parallel => exact Evaluation.parallel_eq_sequential hops

end Bracketing
