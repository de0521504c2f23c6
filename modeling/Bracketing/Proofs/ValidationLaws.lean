import Bracketing.Proofs.FlatLaws
import Bracketing.Proofs.GrammarLaws

namespace Bracketing

variable {text : String}

theorem validate_eq_ok_iff :
    validate text = .ok () ↔ text.toList ∈ Grammar.flat Text.isDecimalDigit := by
  rw [← Grammar.isFlat_iff_mem_flat Text.isDecimalDigit_symbol, validate]
  split
  next hempty =>
    rw [String.isEmpty_iff] at hempty
    subst hempty
    simp [isFlat, completes]
  next => split <;> simp [*]

theorem validate_eq_empty_iff : validate text = .error .empty ↔ text = "" := by
  rw [← String.isEmpty_iff, validate]
  split
  next hempty => simp [hempty]
  next hempty => split <;> simp [hempty]

theorem validate_eq_malformed_iff {other : String} :
    validate text = .error (.malformed other) ↔
      other = text ∧ text ≠ "" ∧ text.toList ∉ Grammar.flat Text.isDecimalDigit := by
  rw [← validate_eq_ok_iff, ne_eq, ← String.isEmpty_iff, validate]
  split
  next hempty => simp [hempty]
  next hempty => split <;> simp [hempty, eq_comm]

/-- What may be wrong with a text, and where. -/
inductive Flaw (digit : Char → Bool) : List Char → Prop
  | foreign (cs : List Char) (c : Char) (ds : List Char) (hdigit : digit c = false)
      (hsymbol : Operator.ofSymbol? c = none) : Flaw digit (cs ++ c :: ds)
  | leading (op : Operator) (ds : List Char) : Flaw digit (op.symbol :: ds)
  | trailing (cs : List Char) (op : Operator) : Flaw digit (cs ++ [op.symbol])
  | doubled (cs : List Char) (o p : Operator) (ds : List Char) :
      Flaw digit (cs ++ o.symbol :: p.symbol :: ds)

theorem exists_completes_of_append {digit : Char → Bool} {behindDigit : Bool} {cs ds : List Char}
    (h : completes digit behindDigit (cs ++ ds) = true) :
    ∃ behindDigit', completes digit behindDigit' ds = true := by
  induction cs generalizing behindDigit with
  | nil => exact ⟨behindDigit, h⟩
  | cons c cs ih =>
    rw [List.cons_append, completes] at h
    split at h
    · exact ih h
    · exact ih (Bool.and_eq_true_iff.1 h).2

theorem completes_symbol_cons {digit : Char → Bool} (h : ∀ op, digit (Operator.symbol op) = false)
    (behindDigit : Bool) (op : Operator) (cs : List Char) :
    completes digit behindDigit (op.symbol :: cs) = (behindDigit && completes digit false cs) := by
  simp [completes, h op]

theorem Flaw.not_isFlat {digit : Char → Bool} (h : ∀ op, digit (Operator.symbol op) = false)
    {cs : List Char} (hflaw : Flaw digit cs) : isFlat digit cs = false := by
  rw [← Bool.not_eq_true, isFlat]
  intro hcompletes
  -- In whichever of its two states the walk comes upon the flaw, it fails there.
  cases hflaw with
  | foreign cs c ds hdigit hsymbol =>
    obtain ⟨behindDigit, hrest⟩ := exists_completes_of_append hcompletes
    simp [completes, hdigit, hsymbol] at hrest
  | leading op ds => simp [completes_symbol_cons h] at hcompletes
  | trailing cs op =>
    obtain ⟨behindDigit, hrest⟩ := exists_completes_of_append hcompletes
    rw [completes_symbol_cons h] at hrest
    simp [completes] at hrest
  | doubled cs o p ds =>
    obtain ⟨behindDigit, hrest⟩ := exists_completes_of_append hcompletes
    simp [completes_symbol_cons h] at hrest

namespace Token

structure Alternate (digit : Char → Bool) (ts : List Token) : Prop where
  odd_length : ts.length % 2 = 1
  operator_of_odd : ∀ i t, ts[i]? = some t → i % 2 = 1 → t.isOperator = true
  operand_of_even : ∀ i t, ts[i]? = some t → i % 2 = 0 →
    ∃ text, t = .operand text ∧ ∀ c ∈ text.toList, digit c = true

variable {digit : Char → Bool} {t m : Token} {ts : List Token}

theorem alternate_singleton_iff :
    Alternate digit [t] ↔ ∃ text, t = .operand text ∧ ∀ c ∈ text.toList, digit c = true := by
  constructor
  · intro h
    exact h.operand_of_even 0 t rfl rfl
  · intro h
    refine ⟨rfl, fun i u hu hodd => ?_, fun i u hu heven => ?_⟩
    · cases i with
      | zero => cases hodd
      | succ i => cases hu
    · cases i with
      | zero =>
        cases hu
        exact h
      | succ i => cases hu

theorem alternate_cons_cons_iff :
    Alternate digit (t :: m :: ts) ↔
      (∃ text, t = .operand text ∧ ∀ c ∈ text.toList, digit c = true) ∧ m.isOperator = true ∧
        Alternate digit ts := by
  constructor
  · intro h
    refine ⟨h.operand_of_even 0 t rfl rfl, h.operator_of_odd 1 m rfl rfl, ?_, ?_, ?_⟩
    · exact odd_length_cons_cons_iff.1 h.odd_length
    · intro i u hu hodd
      exact h.operator_of_odd (i + 2) u hu (by omega)
    · intro i u hu heven
      exact h.operand_of_even (i + 2) u hu (by omega)
  · rintro ⟨ht, hm, hts⟩
    refine ⟨odd_length_cons_cons_iff.2 hts.odd_length, fun i u hu hodd => ?_,
      fun i u hu heven => ?_⟩
    · match i with
      | 0 => cases hodd
      | 1 =>
        cases hu
        exact hm
      | i + 2 => exact hts.operator_of_odd i u hu (by omega)
    · match i with
      | 0 =>
        cases hu
        exact ht
      | 1 => cases heven
      | i + 2 => exact hts.operand_of_even i u hu (by omega)

theorem areFlat_iff_alternate : ∀ {ts : List Token}, areFlat digit ts = true ↔ Alternate digit ts
  | [] => ⟨nofun, fun h => nomatch h.odd_length⟩
  | [.operand text] => by simp [areFlat, alternate_singleton_iff]
  | [.operator op] => by simp [areFlat, alternate_singleton_iff]
  | .operand text :: .operator op :: ts => by
    rw [alternate_cons_cons_iff, ← areFlat_iff_alternate]
    simp [areFlat, isOperator]
  | .operand text :: .operand other :: ts => by
    simp [areFlat, alternate_cons_cons_iff, isOperator]
  | .operator op :: m :: ts => by simp [areFlat, alternate_cons_cons_iff]

end Token

theorem mem_flat_iff_areFlat {digit : Char → Bool} (h : ∀ op, digit (Operator.symbol op) = false)
    {cs : List Char} : cs ∈ Grammar.flat digit ↔ Token.areFlat digit (Token.scan cs) = true := by
  rw [← Grammar.isFlat_iff_mem_flat h, isFlat, (completes_eq_scan h cs).1]

theorem mem_flat_iff_alternate :
    text.toList ∈ Grammar.flat Text.isDecimalDigit ↔
      Token.Alternate Text.isDecimalDigit (Token.ofText text) := by
  rw [mem_flat_iff_areFlat Text.isDecimalDigit_symbol, Token.areFlat_iff_alternate, Token.ofText]

theorem validate_malformed_of_flaw (h : Flaw Text.isDecimalDigit text.toList) :
    validate text = .error (.malformed text) := by
  rw [validate_eq_malformed_iff]
  have hflat := h.not_isFlat Text.isDecimalDigit_symbol
  refine ⟨rfl, ?_, ?_⟩
  · rintro rfl
    generalize hcs : "".toList = cs at h
    cases h <;> simp at hcs
  · rw [← Grammar.isFlat_iff_mem_flat Text.isDecimalDigit_symbol, hflat]
    exact Bool.false_ne_true

theorem validate_tells_alternation (text : String) :
    (validate text = .ok () ↔ Token.Alternate Text.isDecimalDigit (Token.ofText text)) ∧
      (validate text = .error .empty ↔ text = "") ∧
      (∀ other, validate text = .error (.malformed other) ↔
        other = text ∧ text ≠ "" ∧ ¬ Token.Alternate Text.isDecimalDigit (Token.ofText text)) ∧
      (Flaw Text.isDecimalDigit text.toList → validate text = .error (.malformed text)) := by
  refine ⟨validate_eq_ok_iff.trans mem_flat_iff_alternate, validate_eq_empty_iff, fun other => ?_,
    validate_malformed_of_flaw⟩
  rw [validate_eq_malformed_iff, mem_flat_iff_alternate]

theorem validate_tells_alternation_trailing_newline :
    Flaw Text.isDecimalDigit "1\n".toList ∧ validate "1\n" = .error (.malformed "1\n") := by
  have hflaw : Flaw Text.isDecimalDigit "1\n".toList :=
    .foreign ['1'] '\n' [] (by decide +kernel) rfl
  exact ⟨hflaw, (validate_tells_alternation "1\n").2.2.2 hflaw⟩

end Bracketing
