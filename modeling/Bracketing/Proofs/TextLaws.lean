import Bracketing.Proofs.ItemLaws
import Bracketing.Tree.Text

namespace Bracketing

def Double.isTextChar (c : Char) : Bool := c.isDigit || ['.', '-', 'i', 'n', 'f', 'N', 'a'].elem c

theorem Decimal.isTextChar_of_mem_chars {d : Decimal} {c : Char} (h : c ∈ d.chars) :
    Double.isTextChar c = true := by
  have hdigit : ∀ c ∈ Nat.toDigits 10 d.digits, Double.isTextChar c = true := by
    intro c hc
    rw [Double.isTextChar, Nat.isDigit_of_mem_toDigits (by decide) (by decide) hc, Bool.true_or]
  have hpad : ∀ c ∈ (Nat.toDigits 10 d.digits).leftpad (d.places + 1) '0',
      Double.isTextChar c = true := by
    intro c hc
    rcases List.mem_append.1 hc with hzero | hc
    · rw [(List.mem_replicate.1 hzero).2]
      decide
    · exact hdigit c hc
  unfold chars at h
  split at h
  · exact hdigit c h
  · rcases List.mem_append.1 h with htake | hdrop
    · exact hpad c (List.mem_of_mem_take htake)
    · rcases List.mem_cons.1 hdrop with rfl | hdrop
      · decide
      · exact hpad c (List.mem_of_mem_drop hdrop)

theorem Double.isTextChar_of_mem_text {x : Float} {c : Char} (h : c ∈ (text x).toList) :
    isTextChar c = true := by
  have hwords : ∀ word ∈ ["NaN", "-", "", "inf"], ∀ c ∈ word.toList, isTextChar c = true := by
    simp [isTextChar]
  have htext : text x = if infinity < ordinal x then "NaN"
      else (if isNegative x then "-" else "") ++
        if ordinal x = infinity then "inf" else (Decimal.shortest (ordinal x)).text := rfl
  rw [htext] at h
  split at h
  next => exact hwords "NaN" (by decide) c h
  next =>
    rw [String.toList_append] at h
    rcases List.mem_append.1 h with hsign | h
    · split at hsign
      next => exact hwords "-" (by decide) c hsign
      next => exact hwords "" (by decide) c hsign
    · split at h
      next => exact hwords "inf" (by decide) c h
      next =>
        rw [Decimal.text, String.toList_ofList] at h
        exact Decimal.isTextChar_of_mem_chars h

theorem Operator.symbol_injective {o p : Operator} (h : o.symbol = p.symbol) : o = p := by
  rw [← Option.some_inj, ← ofSymbol?_symbol o, h, ofSymbol?_symbol]

namespace Tree

inductive Alike : Tree → Tree → Prop
  | leaf {x y : Float} : Double.text x = Double.text y → Alike (.leaf x) (.leaf y)
  | node {op : Operator} {l m r s : Tree} : Alike l m → Alike r s →
      Alike (.node op l r) (.node op m s)

/-- What may stand behind the text of a tree inside a larger one. -/
def Ends (rest : List Char) : Prop := ∀ c ∈ rest.head?, c = ' ' ∨ c = ')'

theorem ends_nil : Ends [] := nofun

theorem ends_cons {c : Char} (rest : List Char) (h : c = ' ' ∨ c = ')') : Ends (c :: rest) := by
  rintro d hd
  exact Option.some.inj hd ▸ h

theorem toList_inner_leaf (x : Float) : (leaf x).inner.toList = (Double.text x).toList := rfl

theorem toList_inner_node (op : Operator) (l r : Tree) :
    (node op l r).inner.toList =
      '(' :: (l.inner.toList ++ ' ' :: op.symbol :: ' ' :: (r.inner.toList ++ [')'])) := by
  simp [inner, Operator.text]

theorem takeWhile_text_append (x : Float) {rest : List Char} (h : Ends rest) :
    ((Double.text x).toList ++ rest).takeWhile Double.isTextChar = (Double.text x).toList := by
  have hrest : rest.takeWhile Double.isTextChar = [] := by
    cases rest with
    | nil => rfl
    | cons c rest =>
      apply List.takeWhile_cons_of_neg
      rcases h c rfl with rfl | rfl <;> decide
  rw [List.takeWhile_append_of_pos fun c hc => Double.isTextChar_of_mem_text hc, hrest,
    List.append_nil]

theorem text_append_ne (x : Float) {rest : List Char} (h : Ends rest) (cs : List Char) :
    (Double.text x).toList ++ rest ≠ '(' :: cs := by
  intro heq
  have hnil : (Double.text x).toList = [] := by
    rw [← takeWhile_text_append x h, heq, List.takeWhile_cons_of_neg (by decide)]
  rw [hnil, List.nil_append] at heq
  rcases h '(' (by rw [heq]; rfl) with hc | hc <;> cases hc

theorem alike_of_inner_append {t u : Tree} {rest rest' : List Char} (hrest : Ends rest)
    (hrest' : Ends rest') (h : t.inner.toList ++ rest = u.inner.toList ++ rest') :
    Alike t u ∧ rest = rest' := by
  induction t generalizing u rest rest' with
  | leaf x =>
    cases u with
    | leaf y =>
      simp only [toList_inner_leaf] at h
      -- What may stand behind a number is none of its characters, so both texts end alike.
      have htext : (Double.text x).toList = (Double.text y).toList := by
        rw [← takeWhile_text_append x hrest, h, takeWhile_text_append y hrest']
      rw [htext] at h
      exact ⟨.leaf (String.toList_inj.1 htext), List.append_cancel_left h⟩
    | node p m s =>
      rw [toList_inner_leaf, toList_inner_node] at h
      exact absurd h (text_append_ne x hrest _)
  | node op l r ihl ihr =>
    cases u with
    | leaf y =>
      rw [toList_inner_leaf, toList_inner_node] at h
      exact absurd h.symm (text_append_ne y hrest' _)
    | node p m s =>
      simp only [toList_inner_node, List.cons_append, List.append_assoc, List.cons.injEq,
        true_and] at h
      obtain ⟨hleft, h⟩ := ihl (ends_cons _ (.inl rfl)) (ends_cons _ (.inl rfl)) h
      simp only [List.cons.injEq, true_and] at h
      obtain rfl := Operator.symbol_injective h.1
      obtain ⟨hright, h⟩ := ihr (ends_cons _ (.inr rfl)) (ends_cons _ (.inr rfl)) h.2
      simp only [List.nil_append, List.cons.injEq, true_and] at h
      exact ⟨.node hleft hright, h⟩

theorem space_mem_text_node (op : Operator) (l r : Tree) : ' ' ∈ (node op l r).text.toList := by
  simp [text]

theorem text_leaf_ne_text_node (x : Float) (op : Operator) (l r : Tree) :
    (leaf x).text ≠ (node op l r).text := by
  intro h
  have hspace := space_mem_text_node op l r
  rw [← h] at hspace
  cases Double.isTextChar_of_mem_text hspace

theorem alike_of_text {t u : Tree} (h : t.text = u.text) : Alike t u := by
  cases t with
  | leaf x =>
    cases u with
    | leaf y => exact .leaf h
    | node p m s => exact absurd h (text_leaf_ne_text_node x p m s)
  | node op l r =>
    cases u with
    | leaf y => exact absurd h.symm (text_leaf_ne_text_node y op l r)
    | node p m s =>
      have hinner : (node op l r).inner.toList ++ [] = (node p m s).inner.toList ++ [] := by
        rw [inner_node, inner_node, h]
      exact (alike_of_inner_append ends_nil ends_nil hinner).1

theorem Alike.operators_eq {t u : Tree} (h : Alike t u) : t.operators = u.operators := by
  induction h with
  | leaf h => rfl
  | node hleft hright ihl ihr => simp only [operators, ihl, ihr]

theorem Alike.eq_of_items {t u : Tree} (h : Alike t u) (hitems : t.items = u.items) : t = u := by
  induction h with
  | leaf h =>
    cases hitems
    rfl
  | @node op l m r s hleft hright ihl ihr =>
    have hlen : l.items.length = m.items.length := by
      rw [length_items, length_items, hleft.operators_eq]
    obtain ⟨hl, hr⟩ := List.append_inj hitems hlen
    rw [ihl hl, ihr (List.cons.inj hr).2]

theorem eq_of_text_of_items {t u : Tree} (htext : t.text = u.text) (hitems : t.items = u.items) :
    t = u :=
  (alike_of_text htext).eq_of_items hitems

end Tree

end Bracketing
