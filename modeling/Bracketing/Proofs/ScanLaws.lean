import Bracketing.Token.Scan
import Mathlib.Data.List.Chain

namespace Bracketing.Token

theorem scan_of_symbol {c : Char} {op : Operator} (h : Operator.ofSymbol? c = some op)
    (cs : List Char) : scan (c :: cs) = .operator op :: scan cs := by
  rw [scan, h]

theorem scan_of_not_symbol {c : Char} (h : Operator.ofSymbol? c = none) (cs : List Char) :
    scan (c :: cs) = glue c (scan cs) := by
  rw [scan, h]

theorem glue_append_operator (c : Char) (op : Operator) (ts us : List Token) :
    glue c (ts ++ .operator op :: us) = glue c ts ++ .operator op :: us := by
  rcases ts with - | ⟨text | op, ts⟩ <;> rfl

theorem chars_operand_operator (text : String) (op : Operator) (ts : List Token) :
    chars (.operand text :: .operator op :: ts) = text.toList ++ op.symbol :: chars ts := by
  simp [chars, Token.text]

theorem scan_append_symbol (cs ds : List Char) (op : Operator) :
    scan (cs ++ op.symbol :: ds) = scan cs ++ .operator op :: scan ds := by
  induction cs with
  | nil => exact scan_of_symbol (Operator.ofSymbol?_symbol op) ds
  | cons c cs ih =>
    rw [List.cons_append]
    cases h : Operator.ofSymbol? c with
    | some p => rw [scan_of_symbol h, scan_of_symbol h, ih, List.cons_append]
    | none => rw [scan_of_not_symbol h, scan_of_not_symbol h, ih, glue_append_operator]

theorem glue_of_head {c : Char} {ts : List Token} (h : ∀ t ∈ ts.head?, t.isOperator = true) :
    glue c ts = .operand (String.singleton c) :: ts := by
  rcases ts with - | ⟨text | op, ts⟩
  · rfl
  · cases h (.operand text) rfl
  · rfl

theorem scan_append_of_not_symbols {cs ds : List Char} (hne : cs ≠ [])
    (hcs : ∀ c ∈ cs, Operator.ofSymbol? c = none)
    (hhead : ∀ t ∈ (scan ds).head?, t.isOperator = true) :
    scan (cs ++ ds) = .operand (String.ofList cs) :: scan ds := by
  induction cs with
  | nil => exact absurd rfl hne
  | cons c cs ih =>
    obtain ⟨hc, hcs⟩ := List.forall_mem_cons.1 hcs
    rw [List.cons_append, scan_of_not_symbol hc]
    cases cs with
    | nil => exact glue_of_head hhead
    | cons d cs =>
      rw [ih (List.cons_ne_nil d cs) hcs, glue, ← String.ofList_cons]

structure Canonical (ts : List Token) : Prop where
  ne_empty : ∀ text, operand text ∈ ts → text ≠ ""
  no_symbol : ∀ text, operand text ∈ ts → ∀ op : Operator, op.symbol ∉ text.toList
  apart : ts.IsChain fun t u => t.isOperator = true ∨ u.isOperator = true

namespace Canonical

variable {ts : List Token}

theorem nil : Canonical [] := ⟨nofun, nofun, .nil⟩

theorem tail {t : Token} (h : Canonical (t :: ts)) : Canonical ts where
  ne_empty text ht := h.ne_empty text (List.mem_cons_of_mem t ht)
  no_symbol text ht := h.no_symbol text (List.mem_cons_of_mem t ht)
  apart := h.apart.tail

theorem isOperator_head {text : String} (h : Canonical (operand text :: ts)) :
    ∀ t ∈ ts.head?, t.isOperator = true := by
  intro t ht
  exact (h.apart.rel_head? ht).resolve_left nofun

theorem not_symbol {text : String} (h : Canonical (operand text :: ts)) :
    ∀ c ∈ text.toList, Operator.ofSymbol? c = none := by
  intro c hc
  rw [Option.eq_none_iff_forall_ne_some]
  intro op hop
  rw [Operator.ofSymbol?_eq_some_iff] at hop
  exact h.no_symbol text List.mem_cons_self op (hop ▸ hc)

theorem cons_operator (h : Canonical ts) (op : Operator) : Canonical (operator op :: ts) where
  ne_empty text ht := h.ne_empty text (by simpa using ht)
  no_symbol text ht := h.no_symbol text (by simpa using ht)
  apart := h.apart.cons fun _ _ => .inl rfl

theorem cons_operand {text : String} (hne : text ≠ "")
    (hsymbol : ∀ op : Operator, op.symbol ∉ text.toList) (h : Canonical ts)
    (hhead : ∀ t ∈ ts.head?, t.isOperator = true) : Canonical (operand text :: ts) where
  ne_empty := by
    intro text' ht
    rcases List.mem_cons.1 ht with heq | ht
    · cases heq
      exact hne
    · exact h.ne_empty text' ht
  no_symbol := by
    intro text' ht
    rcases List.mem_cons.1 ht with heq | ht
    · cases heq
      exact hsymbol
    · exact h.no_symbol text' ht
  apart := h.apart.cons fun t ht => .inr (hhead t ht)

theorem glue {c : Char} (hc : Operator.ofSymbol? c = none) (h : Canonical ts) :
    Canonical (glue c ts) := by
  have hsymbol : ∀ op : Operator, op.symbol ≠ c := by
    rintro op rfl
    rw [Operator.ofSymbol?_symbol] at hc
    cases hc
  rcases ts with - | ⟨text | op, ts⟩
  · exact cons_operand (by simp) (by simpa using hsymbol) nil nofun
  · refine cons_operand (by simp) (fun op => ?_) h.tail h.isOperator_head
    simpa [hsymbol op] using h.no_symbol text List.mem_cons_self op
  · refine cons_operand (by simp) (by simpa using hsymbol) h ?_
    rintro t ⟨⟩
    rfl

end Canonical

theorem canonical_scan (cs : List Char) : Canonical (scan cs) := by
  fun_induction scan cs with
  | case1 => exact .nil
  | case2 c cs op h ih => exact ih.cons_operator op
  | case3 c cs h ih => exact ih.glue h

theorem Canonical.scan_operand {text : String} {ts : List Token}
    (h : Canonical (operand text :: ts)) : scan text.toList = [operand text] := by
  have hne : text.toList ≠ [] := by simpa using h.ne_empty text List.mem_cons_self
  have hnil : ∀ t ∈ (scan []).head?, t.isOperator = true := nofun
  simpa [scan] using scan_append_of_not_symbols hne h.not_symbol hnil

theorem Canonical.scan_chars {ts : List Token} (h : Canonical ts) : scan (chars ts) = ts := by
  induction ts with
  | nil => rfl
  | cons t ts ih =>
    have hts := ih h.tail
    cases t with
    | operator op =>
      rw [chars, List.flatMap_cons, text, Operator.toList_text, List.singleton_append,
        scan_of_symbol (Operator.ofSymbol?_symbol op), ← chars, hts]
    | operand text =>
      have hne := h.ne_empty text List.mem_cons_self
      -- The operand does not run on: what is read behind it begins with an operator, if at all.
      have hhead := h.isOperator_head
      rw [← hts] at hhead
      rw [chars, List.flatMap_cons, ← chars, Token.text,
        scan_append_of_not_symbols (by simpa using hne) h.not_symbol hhead,
        String.ofList_toList, hts]

theorem toList_join_map_text (ts : List Token) :
    (String.join (ts.map Token.text)).toList = chars ts := by
  rw [String.toList_join, List.flatMap_map, chars]

theorem ofText_eq_iff {text : String} {ts : List Token} :
    ofText text = ts ↔ String.join (ts.map Token.text) = text ∧ Canonical ts := by
  rw [← String.toList_inj, toList_join_map_text]
  constructor
  · rintro rfl
    exact ⟨chars_scan _, canonical_scan _⟩
  · rintro ⟨htext, hts⟩
    rw [ofText, ← htext, hts.scan_chars]

theorem ofText_and_join_inverse :
    (∀ text ts, ofText text = ts ↔ String.join (ts.map Token.text) = text ∧ Canonical ts) ∧
      (∀ text, String.join ((ofText text).map Token.text) = text) ∧
      ∀ ts, ofText (String.join (ts.map Token.text)) = ts ↔ Canonical ts := by
  refine ⟨fun text ts => ofText_eq_iff, fun text => (ofText_eq_iff.1 rfl).1, fun ts => ?_⟩
  rw [ofText_eq_iff]
  exact and_iff_right rfl

end Bracketing.Token
