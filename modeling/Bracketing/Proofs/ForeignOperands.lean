import Bracketing.Proofs.ReadableTexts

/-!
What a valid text may still fail of. The check takes the digits of every script for digits, a value
is given to 0 to 9 alone: the leftmost operand with another digit in it is the fault of the text, by
every strategy and for the trees.
-/

namespace Bracketing

def Operand.isForeign (text : String) : Bool := text.toList.any fun c => !c.isDigit

/-- The operands of a text: what stands between its symbols. -/
def operandTexts (text : String) : List String :=
  (text.toList.splitOnP fun c => (Operator.ofSymbol? c).isSome).map String.ofList

def foreignOperand? (text : String) : Option String := (operandTexts text).find? Operand.isForeign

theorem Item.read_singleton_eq_error_iff {t : Token} {fault : Fault} :
    read [t] = .error fault ↔ t.toValue = .error fault := by
  simp only [read, Except.bind_eq_error_iff]
  simp [pure, Except.pure]

namespace Token

theorem toValue_operand_of_foreign {text : String} (h : Operand.isForeign text = true) :
    (operand text).toValue = .error (.operand text) := by
  have hall : text.toList.all Char.isDigit = false := by
    rw [List.all_eq_not_any_not, ← Operand.isForeign, h]
    rfl
  apply Operand.read_of_not_isNumeral
  rw [Operand.isNumeral, hall, Bool.and_false]
  exact Bool.false_ne_true

theorem exists_toValue_of_not_foreign {text : String} (hne : text ≠ "")
    (h : Operand.isForeign text = false) : ∃ x, (operand text).toValue = .ok x := by
  rw [exists_toValue_operand_iff hne, List.all_eq_not_any_not, ← Operand.isForeign, h]
  rfl

variable {digit : Char → Bool} {ts : List Token}

theorem read_eq_error_iff_of_areFlat {fault : Fault} (h : areFlat digit ts = true)
    (hne : ∀ text ∈ operands ts, text ≠ "") :
    Item.read ts = .error fault ↔
      ((operands ts).find? Operand.isForeign).map Fault.operand = some fault := by
  fun_induction areFlat digit ts with
  | case1 text =>
    rw [Item.read_singleton_eq_error_iff]
    cases hforeign : Operand.isForeign text with
    | true => simp [toValue_operand_of_foreign hforeign, hforeign, operands]
    | false =>
      obtain ⟨x, hx⟩ := exists_toValue_of_not_foreign (hne text List.mem_cons_self) hforeign
      simp [hx, hforeign, operands]
  | case2 text op ts ih =>
    -- The operator has its turn first, but it is in order, so the operand in front of it decides.
    rw [Item.read_cons_cons_eq_error_iff, operands_operand, operands_operator]
    rw [operands_operand, operands_operator, List.forall_mem_cons] at hne
    have hrest := ih (Bool.and_eq_true_iff.1 h).2 hne.2
    cases hforeign : Operand.isForeign text with
    | true => simp [toOperator, toValue_operand_of_foreign hforeign, hforeign]
    | false =>
      obtain ⟨x, hx⟩ := exists_toValue_of_not_foreign hne.1 hforeign
      simp only [toOperator, hx, List.find?_cons, hforeign, ← hrest]
      simp
  | case3 => cases h

theorem areFlat_mono {digit' : Char → Bool} (hdigit : ∀ c, digit c = true → digit' c = true)
    (h : areFlat digit ts = true) : areFlat digit' ts = true := by
  fun_induction areFlat digit ts with
  | case1 text =>
    simp only [areFlat, List.all_eq_true] at h ⊢
    exact fun c hc => hdigit c (h c hc)
  | case2 text op ts ih =>
    simp only [areFlat, Bool.and_eq_true, List.all_eq_true] at h ⊢
    exact ⟨fun c hc => hdigit c (h.1 c hc), ih h.2⟩
  | case3 => cases h

theorem splitOnP_chars (hsymbol : ∀ op, digit (Operator.symbol op) = false)
    (h : areFlat digit ts = true) :
    (chars ts).splitOnP (fun c => (Operator.ofSymbol? c).isSome) =
      (operands ts).map String.toList := by
  have hnone : ∀ text : String, text.toList.all digit = true →
      ∀ c ∈ text.toList, (Operator.ofSymbol? c).isSome = false := by
    intro text htext c hc
    rw [Operator.ofSymbol?_of_digit hsymbol (List.all_eq_true.1 htext c hc)]
    rfl
  fun_induction areFlat digit ts with
  | case1 text =>
    simpa [chars, Token.text, operands] using List.splitOnP_eq_singleton (hnone text h)
  | case2 text op ts ih =>
    obtain ⟨htext, hts⟩ := Bool.and_eq_true_iff.1 h
    rw [chars_operand_operator,
      List.splitOnP_append_cons_of_forall_mem (hnone text htext) _ (by simp), ih hts]
    simp
  | case3 => cases h

end Token

theorem operandTexts_of_validate {text : String} (h : validate text = .ok ()) :
    operandTexts text = Token.operands (Token.ofText text) := by
  have hsplit := Token.splitOnP_chars Text.isDecimalDigit_symbol (areFlat_of_validate h)
  rw [Token.ofText, Token.chars_scan] at hsplit
  rw [operandTexts, hsplit, Token.ofText]
  simp

section Valid

variable {text : String} {fault : Fault}

theorem read_eq_error_iff_of_validate (h : validate text = .ok ()) :
    Item.read (Token.ofText text) = .error fault ↔
      (foreignOperand? text).map Fault.operand = some fault := by
  rw [Token.read_eq_error_iff_of_areFlat (areFlat_of_validate h), foreignOperand?,
    operandTexts_of_validate h]
  intro operand hoperand
  exact (Token.canonical_scan _).ne_empty operand (Token.mem_operands_iff.1 hoperand)

theorem values_eq_error_iff_of_validate (h : validate text = .ok ()) :
    values text = .error fault ↔ (foreignOperand? text).map Fault.operand = some fault := by
  rw [← read_eq_error_iff_of_validate h]
  exact Evaluation.sequential_eq_error_iff_read

theorem trees_eq_error_iff_values (text : String) (fault : Fault) :
    trees text = .error fault ↔ values text = .error fault := by
  rw [trees, Tree.all_eq_error_iff_read]
  exact Evaluation.sequential_eq_error_iff_read.symm

end Valid

section Outcome

variable {text : String}

theorem validValues_eq_rejected_iff {reason : Rejection} :
    validValues text = .error (.rejected reason) ↔ validate text = .error reason := by
  simp [validValues, Except.bind_eq_error_iff, Except.mapError_eq_error_iff]

theorem validValues_eq_faulty_iff {fault : Fault} :
    validValues text = .error (.faulty fault) ↔
      validate text = .ok () ∧ values text = .error fault := by
  simp [validValues, Except.bind_eq_error_iff, Except.mapError_eq_error_iff,
    Except.mapError_eq_ok_iff, Unique.exists_iff]

theorem validValues_eq_ok_iff {xs : List Float} :
    validValues text = .ok xs ↔ validate text = .ok () ∧ values text = .ok xs := by
  simp [validValues, Except.bind_eq_ok_iff, Except.mapError_eq_ok_iff, Unique.exists_iff]

end Outcome

theorem values_alike_of_validate {text : String} (h : validate text = .ok ()) :
    (foreignOperand? text = none ∧ (∀ s : Strategy, ∃ xs, s.values text = .ok xs) ∧
        ∃ ts, trees text = .ok ts) ∨
      ∃ operand, foreignOperand? text = some operand ∧
        (∀ s : Strategy, s.values text = .error (.operand operand)) ∧
        trees text = .error (.operand operand) := by
  simp only [Strategy.values_eq_of_validate h]
  cases hforeign : foreignOperand? text with
  | some operand =>
    have hvalues : values text = .error (.operand operand) := by
      rw [values_eq_error_iff_of_validate h, hforeign]
      rfl
    exact .inr ⟨operand, rfl, fun _ => hvalues, (trees_eq_error_iff_values text _).2 hvalues⟩
  | none =>
    have hvalues : ¬ ∃ fault, values text = .error fault := by
      simp [values_eq_error_iff_of_validate h, hforeign]
    have htrees : ¬ ∃ fault, trees text = .error fault := by
      simpa only [trees_eq_error_iff_values] using hvalues
    rw [Except.exists_error_iff, not_not] at hvalues htrees
    exact .inl ⟨rfl, fun _ => hvalues, htrees⟩

theorem validValues_eq_operand_iff {text operand : String} :
    validValues text = .error (.faulty (.operand operand)) ↔
      text.toList ∈ Grammar.flat Text.isDecimalDigit ∧ foreignOperand? text = some operand := by
  rw [validValues_eq_faulty_iff, ← validate_eq_ok_iff]
  apply and_congr_right
  intro h
  rw [values_eq_error_iff_of_validate h]
  simp

theorem flat_isDecimalDigit_of_isDigit {cs : List Char} (h : cs ∈ Grammar.flat Char.isDigit) :
    cs ∈ Grammar.flat Text.isDecimalDigit := by
  rw [mem_flat_iff_areFlat Operator.isDigit_symbol] at h
  rw [mem_flat_iff_areFlat Text.isDecimalDigit_symbol]
  exact Token.areFlat_mono (fun _ => Text.isDecimalDigit_of_isDigit) h

theorem exists_validValues_iff {text : String} :
    (∃ xs, validValues text = .ok xs) ↔ text.toList ∈ Grammar.flat Char.isDigit := by
  simp only [validValues_eq_ok_iff, exists_and_left, validate_eq_ok_iff]
  constructor
  · rintro ⟨hflat, hvalues⟩
    have hodd := odd_length_of_mem_flat Text.isDecimalDigit_symbol hflat
    exact (exists_read_iff_of_odd hodd).1 (Tree.exists_all_iff_read.1
      (Strategy.sequential.exists_evaluate_iff_all.1 hvalues))
  · intro hflat
    exact ⟨flat_isDecimalDigit_of_isDigit hflat,
      (exists_values_iff_readable .sequential).2 (.inr (.inl hflat))⟩

theorem validValues_tells (text : String) :
    (validValues text = .error (.rejected .empty) ↔ text = "") ∧
      (∀ other, validValues text = .error (.rejected (.malformed other)) ↔
        other = text ∧ text ≠ "" ∧ text.toList ∉ Grammar.flat Text.isDecimalDigit) ∧
      ((∃ xs, validValues text = .ok xs) ↔ text.toList ∈ Grammar.flat Char.isDigit) ∧
      (∀ operand, validValues text = .error (.faulty (.operand operand)) ↔
        text.toList ∈ Grammar.flat Text.isDecimalDigit ∧ foreignOperand? text = some operand) ∧
      (∀ symbol, validValues text ≠ .error (.faulty (.operator symbol))) ∧
      (validate text = .ok () →
        (foreignOperand? text = none ∧ (∀ s : Strategy, ∃ xs, s.values text = .ok xs) ∧
            ∃ ts, trees text = .ok ts) ∨
          ∃ operand, foreignOperand? text = some operand ∧
            (∀ s : Strategy, s.values text = .error (.operand operand)) ∧
            trees text = .error (.operand operand)) := by
  refine ⟨validValues_eq_rejected_iff.trans validate_eq_empty_iff,
    fun other => validValues_eq_rejected_iff.trans validate_eq_malformed_iff,
    exists_validValues_iff, fun operand => validValues_eq_operand_iff, fun symbol h => ?_,
    values_alike_of_validate⟩
  obtain ⟨hvalid, hvalues⟩ := validValues_eq_faulty_iff.1 h
  rw [values_eq_error_iff_of_validate hvalid, Option.map_eq_some_iff] at hvalues
  obtain ⟨operand, -, hfault⟩ := hvalues
  cases hfault

theorem validValues_tells_three :
    validate "2+٣*4" = .ok () ∧ validValues "2+٣*4" = .error (.faulty (.operand "٣")) ∧
      Strategy.parallel.values "2+٣*4" = .error (.operand "٣") ∧
      trees "2+٣*4" = .error (.operand "٣") := by
  have hvalid : validate "2+٣*4" = .ok () := by decide +kernel
  have hforeign : foreignOperand? "2+٣*4" = some "٣" := by decide +kernel
  obtain ⟨-, -, -, hoperand, -, halike⟩ := validValues_tells "2+٣*4"
  have hfaulty := (hoperand "٣").2 ⟨validate_eq_ok_iff.1 hvalid, hforeign⟩
  rcases halike hvalid with ⟨hnone, -⟩ | ⟨operand, hsome, hvalues, htrees⟩
  · rw [hforeign] at hnone
    cases hnone
  · rw [hforeign] at hsome
    cases hsome
    exact ⟨hvalid, hfaulty, hvalues .parallel, htrees⟩

end Bracketing
