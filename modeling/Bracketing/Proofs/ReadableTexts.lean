import Bracketing.Proofs.StrategyLaws
import Bracketing.Proofs.ValidationLaws

namespace Bracketing

namespace Token

def operands (ts : List Token) : List String :=
  ts.filterMap fun
    | .operand text => some text
    | .operator _ => none

@[simp] theorem operands_operand (text : String) (ts : List Token) :
    operands (.operand text :: ts) = text :: operands ts := rfl

@[simp] theorem operands_operator (op : Operator) (ts : List Token) :
    operands (.operator op :: ts) = operands ts := rfl

theorem mem_operands_iff {text : String} {ts : List Token} :
    text ∈ operands ts ↔ .operand text ∈ ts := by
  induction ts with
  | nil => simp [operands]
  | cons t ts ih => cases t <;> simp [ih]

theorem exists_toValue_operand_iff {text : String} (hne : text ≠ "") :
    (∃ x, (operand text).toValue = .ok x) ↔ text.toList.all Char.isDigit = true := by
  have hnumeral : Operand.isNumeral text.toList = text.toList.all Char.isDigit := by
    simp [Operand.isNumeral, hne]
  rw [← hnumeral, toValue, Operand.read]
  cases Operand.isNumeral text.toList <;> simp

theorem exists_read_cons_cons_iff {t m : Token} {ts : List Token} :
    (∃ items, Item.read (t :: m :: ts) = .ok items) ↔
      (∃ op, m = .operator op) ∧ (∃ x, t.toValue = .ok x) ∧ ∃ items, Item.read ts = .ok items := by
  simp only [Item.read_cons_cons_eq_ok_iff, toOperator_eq_ok_iff]
  constructor
  · rintro ⟨-, op, x, rest, hm, hx, hrest, rfl⟩
    exact ⟨⟨op, hm⟩, ⟨x, hx⟩, rest, hrest⟩
  · rintro ⟨⟨op, hm⟩, ⟨x, hx⟩, rest, hrest⟩
    exact ⟨_, op, x, rest, hm, hx, hrest, rfl⟩

theorem exists_read_iff_areFlat : ∀ {ts : List Token}, ts.length % 2 = 1 →
    (∀ text ∈ operands ts, text ≠ "") →
      ((∃ items, Item.read ts = .ok items) ↔ areFlat Char.isDigit ts = true)
  | [], hodd, _ => nomatch hodd
  | [.operator op], _, _ => by
    simp [Item.read_singleton_eq_ok_iff, toValue, areFlat]
  | [.operand text], _, hne => by
    rw [areFlat, ← exists_toValue_operand_iff (hne text List.mem_cons_self)]
    simp [Item.read_singleton_eq_ok_iff]
  | .operator op :: m :: ts, _, _ => by
    simp [exists_read_cons_cons_iff, toValue, areFlat]
  | .operand text :: .operand other :: ts, _, _ => by
    simp [exists_read_cons_cons_iff, areFlat]
  | .operand text :: .operator op :: ts, hodd, hne => by
    rw [operands_operand, operands_operator, List.forall_mem_cons] at hne
    have hrest := odd_length_cons_cons_iff.1 hodd
    rw [exists_read_cons_cons_iff, exists_read_iff_areFlat hrest hne.2,
      exists_toValue_operand_iff hne.1, areFlat, Bool.and_eq_true]
    simp

theorem exists_read_append_singleton_iff {m : Token} {ts : List Token}
    (hodd : ts.length % 2 = 1) :
    (∃ items, Item.read (ts ++ [m]) = .ok items) ↔
      (∃ op, m = .operator op) ∧ ∃ items, Item.read ts = .ok items := by
  simp only [Item.read_append_eq_ok_iff hodd, toOperator_eq_ok_iff]
  constructor
  · rintro ⟨-, op, ls, rs, hm, hls, -, -⟩
    exact ⟨⟨op, hm⟩, ls, hls⟩
  · rintro ⟨⟨op, hm⟩, ls, hls⟩
    exact ⟨_, op, ls, [], hm, hls, rfl, rfl⟩

theorem operands_scan_ne_empty (cs : List Char) : ∀ text ∈ operands (scan cs), text ≠ "" :=
  fun text htext => (canonical_scan cs).ne_empty text (mem_operands_iff.1 htext)

theorem scan_eq_nil_iff {cs : List Char} : scan cs = [] ↔ cs = [] := by
  constructor
  · intro h
    rw [← chars_scan cs, h]
    rfl
  · rintro rfl
    rfl

theorem odd_length_of_areFlat {digit : Char → Bool} {ts : List Token}
    (h : areFlat digit ts = true) : ts.length % 2 = 1 :=
  (areFlat_iff_alternate.1 h).odd_length

theorem exists_of_scan_eq_append {cs : List Char} {ts : List Token} {op : Operator}
    (h : scan cs = ts ++ [.operator op]) : ∃ ds, cs = ds ++ [op.symbol] ∧ scan ds = ts := by
  have hcs : cs = chars ts ++ [op.symbol] := by
    rw [← chars_scan cs, h]
    simp [chars, Token.text]
  refine ⟨chars ts, hcs, ?_⟩
  rw [hcs, scan_append_symbol] at h
  exact List.append_cancel_right h

end Token

/-- The texts of which there are values though nobody checked them. -/
def Readable (text : String) : Prop :=
  text = "" ∨ text.toList ∈ Grammar.flat Char.isDigit ∨
    text.toList ∈ Grammar.flat Char.isDigit * Grammar.symbols

theorem Grammar.mem_flat_mul_symbols_iff {digit : Char → Bool} {cs : List Char} :
    cs ∈ flat digit * symbols ↔
      ∃ ds, ∃ op : Operator, ds ∈ flat digit ∧ cs = ds ++ [op.symbol] := by
  simp only [Language.mem_mul, mem_symbols_iff]
  constructor
  · rintro ⟨ds, hds, -, ⟨op, rfl⟩, rfl⟩
    exact ⟨ds, op, hds, rfl⟩
  · rintro ⟨ds, op, hds, rfl⟩
    exact ⟨ds, hds, _, ⟨op, rfl⟩, rfl⟩

theorem odd_length_of_mem_flat {digit : Char → Bool}
    (h : ∀ op, digit (Operator.symbol op) = false) {cs : List Char}
    (hcs : cs ∈ Grammar.flat digit) : (Token.scan cs).length % 2 = 1 :=
  Token.odd_length_of_areFlat ((mem_flat_iff_areFlat h).1 hcs)

theorem exists_read_iff_of_odd {cs : List Char} (hodd : (Token.scan cs).length % 2 = 1) :
    (∃ items, Item.read (Token.scan cs) = .ok items) ↔ cs ∈ Grammar.flat Char.isDigit := by
  rw [mem_flat_iff_areFlat Operator.isDigit_symbol]
  exact Token.exists_read_iff_areFlat hodd (Token.operands_scan_ne_empty cs)

theorem exists_read_iff_of_even {cs : List Char} (heven : (Token.scan cs).length % 2 = 0) :
    (∃ items, Item.read (Token.scan cs) = .ok items) ↔
      cs = [] ∨ cs ∈ Grammar.flat Char.isDigit * Grammar.symbols := by
  rw [Grammar.mem_flat_mul_symbols_iff]
  constructor
  · intro hread
    rcases List.eq_nil_or_concat (Token.scan cs) with hnil | ⟨ts, m, hconcat⟩
    · exact .inl (Token.scan_eq_nil_iff.1 hnil)
    · -- The last token is at an odd place: it is read as an operator with nothing behind it.
      rw [List.concat_eq_append] at hconcat
      have hodd : ts.length % 2 = 1 := by
        rw [hconcat, List.length_append, List.length_singleton] at heven
        omega
      rw [hconcat, Token.exists_read_append_singleton_iff hodd] at hread
      obtain ⟨⟨op, rfl⟩, hts⟩ := hread
      obtain ⟨ds, rfl, rfl⟩ := Token.exists_of_scan_eq_append hconcat
      exact .inr ⟨ds, op, (exists_read_iff_of_odd hodd).1 hts, rfl⟩
  · rintro (rfl | ⟨ds, op, hds, rfl⟩)
    · exact ⟨[], rfl⟩
    · have hodd := odd_length_of_mem_flat Operator.isDigit_symbol hds
      rw [Token.scan_append_symbol]
      exact (Token.exists_read_append_singleton_iff hodd).2
        ⟨⟨op, rfl⟩, (exists_read_iff_of_odd hodd).2 hds⟩

theorem even_length_of_open {cs : List Char}
    (h : cs = [] ∨ cs ∈ Grammar.flat Char.isDigit * Grammar.symbols) :
    (Token.scan cs).length % 2 = 0 := by
  rw [Grammar.mem_flat_mul_symbols_iff] at h
  rcases h with rfl | ⟨ds, op, hds, rfl⟩
  · rfl
  · have hodd := odd_length_of_mem_flat Operator.isDigit_symbol hds
    rw [Token.scan_append_symbol, List.length_append, Token.scan, List.length_singleton]
    omega

theorem exists_read_iff_readable {text : String} :
    (∃ items, Item.read (Token.ofText text) = .ok items) ↔ Readable text := by
  rw [Readable, ← String.toList_eq_nil_iff, Token.ofText]
  rcases Nat.mod_two_eq_zero_or_one (Token.scan text.toList).length with heven | hodd
  · rw [exists_read_iff_of_even heven, or_left_comm]
    refine (or_iff_right fun hflat => ?_).symm
    rw [odd_length_of_mem_flat Operator.isDigit_symbol hflat] at heven
    cases heven
  · rw [exists_read_iff_of_odd hodd, or_left_comm]
    refine (or_iff_left fun hopen => ?_).symm
    rw [even_length_of_open hopen] at hodd
    cases hodd

theorem exists_trees_iff_readable {text : String} :
    (∃ ts, trees text = .ok ts) ↔ Readable text :=
  Tree.exists_all_iff_read.trans exists_read_iff_readable

theorem exists_values_iff_readable {text : String} (s : Strategy) :
    (∃ xs, s.values text = .ok xs) ↔ Readable text :=
  s.exists_evaluate_iff_all.trans exists_trees_iff_readable

theorem values_trees_of_open {text : String}
    (h : text = "" ∨ text.toList ∈ Grammar.flat Char.isDigit * Grammar.symbols) :
    (∀ s : Strategy, s.values text = .ok []) ∧ trees text = .ok [] := by
  obtain ⟨ts, hts⟩ := exists_trees_iff_readable.2 (h.imp_right .inr)
  rw [← String.toList_eq_nil_iff] at h
  have hnil : ts = [] := Tree.eq_nil_of_even hts (even_length_of_open h)
  subst hnil
  exact ⟨fun s => s.evaluate_of_all hts, hts⟩

theorem values_trees_exist_iff_readable (text : String) :
    (∀ s : Strategy, ((∃ xs, s.values text = .ok xs) ↔ Readable text) ∧
        ((∃ fault, s.values text = .error fault) ↔ ¬ Readable text)) ∧
      ((∃ ts, trees text = .ok ts) ↔ Readable text) ∧
      ((∃ fault, trees text = .error fault) ↔ ¬ Readable text) ∧
      (text = "" ∨ text.toList ∈ Grammar.flat Char.isDigit * Grammar.symbols →
        (∀ s : Strategy, s.values text = .ok []) ∧ trees text = .ok []) := by
  refine ⟨fun s => ⟨exists_values_iff_readable s, ?_⟩, exists_trees_iff_readable, ?_,
    values_trees_of_open⟩
  · rw [Except.exists_error_iff, exists_values_iff_readable]
  · rw [Except.exists_error_iff, exists_trees_iff_readable]

theorem values_trees_exist_iff_readable_operand_missing :
    "1-2+".toList ∈ Grammar.flat Char.isDigit * Grammar.symbols ∧
      (∀ s : Strategy, s.values "1-2+" = .ok []) ∧ trees "1-2+" = .ok [] := by
  have hopen : "1-2+".toList ∈ Grammar.flat Char.isDigit * Grammar.symbols :=
    Grammar.mem_flat_mul_symbols_iff.2
      ⟨['1', '-', '2'], .add, (mem_flat_iff_areFlat Operator.isDigit_symbol).2 (by decide), rfl⟩
  exact ⟨hopen, (values_trees_exist_iff_readable "1-2+").2.2.2 (.inr hopen)⟩

end Bracketing
