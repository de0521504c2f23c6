import Bracketing.Expression
import Bracketing.Proofs.EnumerationLaws
import Bracketing.Proofs.TextLaws

namespace Bracketing

def tableText (rows : List (String × String)) : String :=
  String.join (rows.map fun row => row.1 ++ " = " ++ row.2 ++ "\n")

def IsField (text : String) : Prop := '=' ∉ text.toList ∧ '\n' ∉ text.toList

instance (text : String) : Decidable (IsField text) := inferInstanceAs (Decidable (_ ∧ _))

structure IsTable (text : String) (rows : List (String × String)) : Prop where
  text_eq : text = tableText rows
  fields : ∀ row ∈ rows, IsField row.1 ∧ IsField row.2

theorem toList_tableText_cons (row : String × String) (rows : List (String × String)) :
    (tableText (row :: rows)).toList = (row.1.toList ++ [' ']) ++
      '=' :: ((' ' :: row.2.toList) ++ '\n' :: (tableText rows).toList) := by
  simp [tableText]

theorem toList_tableText_cons_ne_nil (row : String × String) (rows : List (String × String)) :
    (tableText (row :: rows)).toList ≠ [] := by
  rw [toList_tableText_cons]
  simp

theorem eq_of_append_separator {separator : α} {xs ys rest rest' : List α} (hxs : separator ∉ xs)
    (hys : separator ∉ ys) (h : xs ++ separator :: rest = ys ++ separator :: rest') :
    xs = ys ∧ rest = rest' := by
  induction xs generalizing ys with
  | nil =>
    cases ys with
    | nil => exact ⟨rfl, (List.cons.inj h).2⟩
    | cons y ys => exact absurd (List.cons.inj h).1 (List.ne_of_not_mem_cons hys)
  | cons x xs ih =>
    cases ys with
    | nil => exact absurd (List.cons.inj h).1.symm (List.ne_of_not_mem_cons hxs)
    | cons y ys =>
      obtain ⟨hxy, h⟩ := List.cons.inj h
      obtain ⟨heq, hrest⟩ :=
        ih (List.not_mem_of_not_mem_cons hxs) (List.not_mem_of_not_mem_cons hys) h
      exact ⟨by rw [hxy, heq], hrest⟩

theorem rows_eq_of_tableText {rows rows' : List (String × String)}
    (hrows : ∀ row ∈ rows, IsField row.1 ∧ IsField row.2)
    (hrows' : ∀ row ∈ rows', IsField row.1 ∧ IsField row.2)
    (h : (tableText rows).toList = (tableText rows').toList) : rows = rows' := by
  induction rows generalizing rows' with
  | nil =>
    cases rows' with
    | nil => rfl
    | cons row' rows' => exact absurd h.symm (toList_tableText_cons_ne_nil row' rows')
  | cons row rows ih =>
    cases rows' with
    | nil => exact absurd h (toList_tableText_cons_ne_nil row rows)
    | cons row' rows' =>
      obtain ⟨hrow, hrows⟩ := List.forall_mem_cons.1 hrows
      obtain ⟨hrow', hrows'⟩ := List.forall_mem_cons.1 hrows'
      rw [toList_tableText_cons, toList_tableText_cons] at h
      obtain ⟨hfirst, h⟩ := eq_of_append_separator (by simpa using hrow.1.1)
        (by simpa using hrow'.1.1) h
      obtain ⟨hsecond, h⟩ := eq_of_append_separator (by simpa using hrow.2.2)
        (by simpa using hrow'.2.2) h
      have heq : row = row' := Prod.ext (String.toList_inj.1 (List.append_cancel_right hfirst))
        (String.toList_inj.1 (List.cons.inj hsecond).2)
      rw [heq, ih hrows hrows' h]

theorem IsTable.unique {text : String} {rows rows' : List (String × String)}
    (h : IsTable text rows) (h' : IsTable text rows') : rows = rows' := by
  apply rows_eq_of_tableText h.fields h'.fields
  rw [← h.text_eq, h'.text_eq]

theorem Double.isField_text (x : Float) : IsField (text x) := by
  constructor
  · intro h
    cases isTextChar_of_mem_text h
  · intro h
    cases isTextChar_of_mem_text h

theorem Double.text_ne_noResult (x : Float) : text x ≠ "no result" := by
  intro h
  have hspace : ' ' ∈ (text x).toList := by
    rw [h]
    decide
  cases isTextChar_of_mem_text hspace

namespace Tree

def row (t : Tree) : String × String := (t.text, (t.value.map Double.text).getD "no result")

theorem not_mem_inner {c : Char} (hnumber : Double.isTextChar c = false)
    (hbetween : c ∉ ['(', ')', ' ']) (hsymbol : ∀ op : Operator, c ≠ op.symbol) (t : Tree) :
    c ∉ t.inner.toList := by
  induction t with
  | leaf x =>
    intro h
    rw [Double.isTextChar_of_mem_text h] at hnumber
    cases hnumber
  | node op l r ihl ihr =>
    rw [toList_inner_node]
    simp only [List.mem_cons, List.not_mem_nil, or_false, not_or] at hbetween
    simp [ihl, ihr, hbetween, hsymbol op]

theorem not_mem_text {c : Char} (hnumber : Double.isTextChar c = false)
    (hbetween : c ∉ ['(', ')', ' ']) (hsymbol : ∀ op : Operator, c ≠ op.symbol) (t : Tree) :
    c ∉ t.text.toList := by
  have hinner := not_mem_inner hnumber hbetween hsymbol t
  cases t with
  | leaf x => exact hinner
  | node op l r =>
    intro h
    rw [inner_node] at hinner
    exact hinner (by simp [h])

theorem isField_text (t : Tree) : IsField t.text := by
  constructor
  · exact not_mem_text (by decide) (by decide) (by intro op; cases op <;> decide) t
  · exact not_mem_text (by decide) (by decide) (by intro op; cases op <;> decide) t

theorem isField_of_row (t : Tree) : IsField t.row.1 ∧ IsField t.row.2 := by
  refine ⟨isField_text t, ?_⟩
  cases h : t.value with
  | none =>
    have hvalue : IsField "no result" := by decide
    rw [row, h]
    exact hvalue
  | some x =>
    rw [row, h]
    exact Double.isField_text x

theorem isTable_lines (ts : List Tree) : IsTable (String.join (ts.map line)) (ts.map row) where
  text_eq := by
    rw [tableText, List.map_map]
    rfl
  fields := by
    intro row hrow
    obtain ⟨t, -, rfl⟩ := List.mem_map.1 hrow
    exact isField_of_row t

theorem filter_map_row (ts : List Tree) :
    ((ts.map row).map Prod.snd).filter (· != "no result") =
      (ts.filterMap value).map Double.text := by
  induction ts with
  | nil => rfl
  | cons t ts ih =>
    cases h : t.value with
    | none =>
      have hsnd : t.row.2 = "no result" := by
        rw [row, h]
        rfl
      simpa [h, hsnd] using ih
    | some x =>
      have hsnd : t.row.2 = Double.text x := by
        rw [row, h]
        rfl
      simpa [h, hsnd, Double.text_ne_noResult] using ih

theorem nodup_map_text_all {ts : List Token} {trees : List Tree} (h : all ts = .ok trees) :
    (trees.map text).Nodup := by
  rw [List.Nodup, List.pairwise_map]
  apply (pairwise_all h).imp_of_mem
  intro t u ht hu htu htext
  have hitems : t.items = u.items := by
    have hread := (mem_all_iff_read h t).1 ht
    rw [(mem_all_iff_read h u).1 hu, Except.ok.injEq] at hread
    exact hread.symm
  exact htu.ne (eq_of_text_of_items htext hitems)

end Tree

end Bracketing
