import Bracketing.Proofs.ReadableTexts
import Bracketing.Proofs.ZeroLaws

namespace Bracketing

structure Parting where
  front : List Char
  op : Operator
  back : List Char

namespace Parting

def prepend (cs : List Char) (p : Parting) : Parting := { p with front := cs ++ p.front }

def all : List Char → List Parting
  | [] => []
  | c :: cs => match Operator.ofSymbol? c with
    | some op => ⟨[], op, cs⟩ :: (all cs).map (prepend [c])
    | none => (all cs).map (prepend [c])

def cut (p : Parting) : Cut := ⟨Token.scan p.front, .operator p.op, Token.scan p.back⟩

theorem all_of_not_symbols {cs : List Char} (h : ∀ c ∈ cs, Operator.ofSymbol? c = none) :
    all cs = [] := by
  induction cs with
  | nil => rfl
  | cons c cs ih =>
    obtain ⟨hc, hcs⟩ := List.forall_mem_cons.1 h
    rw [all, hc, ih hcs]
    rfl

theorem all_append_symbol {cs : List Char} (h : ∀ c ∈ cs, Operator.ofSymbol? c = none)
    (op : Operator) (ds : List Char) :
    all (cs ++ op.symbol :: ds) =
      ⟨cs, op, ds⟩ :: (all ds).map (prepend (cs ++ [op.symbol])) := by
  induction cs with
  | nil =>
    rw [List.nil_append, all, Operator.ofSymbol?_symbol]
    rfl
  | cons c cs ih =>
    obtain ⟨hc, hcs⟩ := List.forall_mem_cons.1 h
    rw [List.cons_append, all, hc, ih hcs]
    simp [prepend, Function.comp_def]

theorem map_cut_all_chars {digit : Char → Bool} {ts : List Token}
    (hflat : Token.areFlat digit ts = true) (h : Token.Canonical ts) :
    (all (Token.chars ts)).map cut = Cut.all ts := by
  fun_induction Token.areFlat digit ts with
  | case1 text =>
    have hchars : Token.chars [.operand text] = text.toList := by simp [Token.chars, Token.text]
    rw [hchars, all_of_not_symbols h.not_symbol]
    rfl
  | case2 text op ts ih =>
    have hrest := ih (Bool.and_eq_true_iff.1 hflat).2 h.tail.tail
    have htext := h.scan_operand
    have hshift : cut ∘ prepend (text.toList ++ [op.symbol]) =
        Cut.shift (.operand text) (.operator op) ∘ cut := by
      funext p
      simp [cut, prepend, Cut.shift, Token.scan_append_symbol, htext]
    rw [Token.chars_operand_operator, all_append_symbol h.not_symbol, List.map_cons, List.map_map,
      hshift, ← List.map_map, hrest, Cut.all, cut, htext, h.tail.tail.scan_chars]
  | case3 => cases hflat

theorem map_cut_all {digit : Char → Bool} (h : ∀ op, digit (Operator.symbol op) = false)
    {cs : List Char} (hcs : cs ∈ Grammar.flat digit) :
    (all cs).map cut = Cut.all (Token.scan cs) := by
  have hcuts := map_cut_all_chars ((mem_flat_iff_areFlat h).1 hcs) (Token.canonical_scan cs)
  rwa [Token.chars_scan] at hcuts

end Parting

theorem Evaluation.exists_sides_of_sequential {digit : Char → Bool}
    (hsymbol : ∀ op, digit (Operator.symbol op) = false) {cs : List Char} {xs : List Float}
    (hcs : cs ∈ Grammar.flat digit) (hlen : 1 < (Token.scan cs).length)
    (h : sequential (Token.scan cs) = .ok xs) :
    ∃ fronts backs : Parting → List Float,
      (∀ p ∈ Parting.all cs, sequential (Token.scan p.front) = .ok (fronts p) ∧
        sequential (Token.scan p.back) = .ok (backs p)) ∧
      xs = (Parting.all cs).flatMap fun p => p.op.combine (fronts p) (backs p) := by
  rw [sequential_eq_gather_of_length hlen, Cut.gather_eq_ok_iff, ← Parting.map_cut_all hsymbol hcs]
    at h
  obtain ⟨g, hg, rfl⟩ := h
  have hparting : ∀ p ∈ Parting.all cs, ∃ ls rs, sequential (Token.scan p.front) = .ok ls ∧
      sequential (Token.scan p.back) = .ok rs ∧ p.op.combine ls rs = g p.cut := by
    intro p hp
    obtain ⟨op, ls, rs, hop, hls, hrs, hcombine⟩ :=
      Cut.outcome_eq_ok_iff.1 (hg p.cut (List.mem_map_of_mem hp))
    cases hop
    exact ⟨ls, rs, hls, hrs, hcombine⟩
  choose! fronts backs hfronts hbacks hcombine using hparting
  refine ⟨fronts, backs, fun p hp => ⟨hfronts p hp, hbacks p hp⟩, ?_⟩
  rw [List.flatMap_map]
  exact List.flatMap_congr fun p hp => (hcombine p hp).symm

theorem one_lt_length_scan {digit : Char → Bool}
    (hsymbol : ∀ op, digit (Operator.symbol op) = false) {text : String}
    (hflat : text.toList ∈ Grammar.flat digit) (hop : 0 < operatorCount text) :
    1 < (Token.scan text.toList).length := by
  have hlen := Token.length_of_areFlat ((mem_flat_iff_areFlat hsymbol).1 hflat)
  rw [Token.countP_isOperator_scan, ← operatorCount] at hlen
  omega

namespace Strategy

theorem values_ofList_eq_ok_iff {s : Strategy} {cs : List Char} {xs : List Float} :
    s.values (String.ofList cs) = .ok xs ↔ Evaluation.sequential (Token.scan cs) = .ok xs := by
  rw [values, Token.ofText, String.toList_ofList, evaluate_eq_ok_iff_sequential]

theorem values_eq_flatMap_partings (s : Strategy) {text : String}
    (hflat : text.toList ∈ Grammar.flat Char.isDigit) (hop : 0 < operatorCount text) :
    ∃ fronts backs : Parting → List Float,
      (∀ p ∈ Parting.all text.toList, s.values (String.ofList p.front) = .ok (fronts p) ∧
        s.values (String.ofList p.back) = .ok (backs p)) ∧
      s.values text = .ok ((Parting.all text.toList).flatMap fun p =>
        (fronts p).flatMap fun l => (backs p).filterMap fun r =>
          if p.op = .div ∧ Double.IsZero r then none else some (p.op.arithmetic l r)) := by
  have hlen := one_lt_length_scan Operator.isDigit_symbol hflat hop
  obtain ⟨xs, hxs⟩ := (exists_values_iff_readable s).2 (.inr (.inl hflat))
  obtain ⟨fronts, backs, hsides, hvalues⟩ := Evaluation.exists_sides_of_sequential
    Operator.isDigit_symbol hflat hlen (evaluate_eq_ok_iff_sequential.1 hxs)
  refine ⟨fronts, backs, fun p hp => ?_, ?_⟩
  · rw [values_ofList_eq_ok_iff, values_ofList_eq_ok_iff]
    exact hsides p hp
  · rw [hxs, hvalues]
    simp only [Operator.combine_eq]

theorem values_eq_flatMap_partings_four_div_two_sub_two :
    "4/2-2".toList ∈ Grammar.flat Char.isDigit ∧ 0 < operatorCount "4/2-2" ∧
      Parting.all "4/2-2".toList =
        [⟨['4'], .div, ['2', '-', '2']⟩, ⟨['4', '/', '2'], .sub, ['2']⟩] ∧
      ∃ four difference quotient two : List Float,
        Strategy.parallel.values "4" = .ok four ∧
        Strategy.parallel.values "2-2" = .ok difference ∧
        Strategy.parallel.values "4/2" = .ok quotient ∧
        Strategy.parallel.values "2" = .ok two ∧
        Strategy.parallel.values "4/2-2" = .ok
          ((four.flatMap fun l => difference.filterMap fun r =>
              if Double.IsZero r then none else some (l / r)) ++
            quotient.flatMap fun l => two.map fun r => l - r) := by
  have hflat : "4/2-2".toList ∈ Grammar.flat Char.isDigit :=
    (mem_flat_iff_areFlat Operator.isDigit_symbol).2 (by decide)
  have hop : 0 < operatorCount "4/2-2" := by decide
  have hall : Parting.all "4/2-2".toList =
      [⟨['4'], .div, ['2', '-', '2']⟩, ⟨['4', '/', '2'], .sub, ['2']⟩] := rfl
  obtain ⟨fronts, backs, hsides, hvalues⟩ := values_eq_flatMap_partings .parallel hflat hop
  simp only [hall, List.forall_mem_cons] at hsides
  obtain ⟨⟨hfour, hdifference⟩, ⟨hquotient, htwo⟩, -⟩ := hsides
  refine ⟨hflat, hop, hall, _, _, _, _, hfour, hdifference, hquotient, htwo, ?_⟩
  rw [hall] at hvalues
  simpa [Operator.arithmetic] using hvalues

end Strategy

end Bracketing
