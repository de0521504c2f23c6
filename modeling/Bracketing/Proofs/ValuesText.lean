import Bracketing.Expression
import Bracketing.Proofs.Double.Reading
import Bracketing.Proofs.TextLaws

namespace Bracketing

def pieces : List Char → List (List Char)
  | ',' :: ' ' :: cs => [] :: pieces cs
  | c :: cs => (pieces cs).modifyHead (c :: ·)
  | [] => [[]]

/-- The values that a text in brackets lists, none if there is nothing in the brackets. -/
def readValues? (text : String) : Option (List Float) :=
  match text.toList with
  | '[' :: cs =>
    if cs.getLast? = some ']' then
      if cs.dropLast = [] then some [] else (pieces cs.dropLast).mapM Double.ofChars?
    else none
  | _ => none

theorem pieces_cons {c : Char} (cs : List Char) (h : c ≠ ',') :
    pieces (c :: cs) = (pieces cs).modifyHead (c :: ·) := by
  rw [pieces]
  rintro rest rfl
  exact absurd rfl h

theorem pieces_append_separator {cs : List Char} (rest : List Char) (h : ',' ∉ cs) :
    pieces (cs ++ ',' :: ' ' :: rest) = cs :: pieces rest := by
  induction cs with
  | nil => rw [List.nil_append, pieces]
  | cons c cs ih =>
    rw [List.cons_append, pieces_cons _ (List.ne_of_not_mem_cons h).symm,
      ih (List.not_mem_of_not_mem_cons h), List.modifyHead_cons]

theorem pieces_eq_singleton {cs : List Char} (h : ',' ∉ cs) : pieces cs = [cs] := by
  induction cs with
  | nil => rw [pieces]
  | cons c cs ih =>
    rw [pieces_cons _ (List.ne_of_not_mem_cons h).symm, ih (List.not_mem_of_not_mem_cons h),
      List.modifyHead_cons]

theorem pieces_intercalate {texts : List (List Char)} (hne : texts ≠ [])
    (h : ∀ text ∈ texts, ',' ∉ text) : pieces ([',', ' '].intercalate texts) = texts := by
  induction texts with
  | nil => exact absurd rfl hne
  | cons text texts ih =>
    rw [List.forall_mem_cons] at h
    cases texts with
    | nil => simpa using pieces_eq_singleton h.1
    | cons text' texts =>
      rw [List.intercalate_cons_cons, List.append_assoc, List.cons_append, List.cons_append,
        List.nil_append, pieces_append_separator _ h.1, ih (List.cons_ne_nil _ _) h.2]

theorem Double.comma_not_mem_text (x : Float) : ',' ∉ (text x).toList := by
  intro h
  cases isTextChar_of_mem_text h

theorem Double.text_ne_empty (x : Float) : text x ≠ "" := by
  intro hempty
  cases h : x.isNaN with
  | true =>
    have htext : text x = "NaN" := if_pos (isNaN_iff.1 h)
    rw [htext] at hempty
    exact absurd hempty (by decide)
  | false =>
    have hread := ofChars?_text h
    rw [hempty] at hread
    cases hread

def valuesChars (xs : List Float) : List Char :=
  [',', ' '].intercalate (xs.map fun x => (Double.text x).toList)

theorem toList_valuesText (xs : List Float) :
    (valuesText xs).toList = '[' :: (valuesChars xs ++ [']']) := by
  have hseparator : ", ".toList = [',', ' '] := by decide
  simp [valuesText, valuesChars, Function.comp_def, hseparator]

theorem valuesChars_eq_nil_iff {xs : List Float} : valuesChars xs = [] ↔ xs = [] := by
  cases xs with
  | nil => simp [valuesChars]
  | cons x xs => cases xs <;> simp [valuesChars, Double.text_ne_empty]

theorem pieces_valuesChars {xs : List Float} (h : xs ≠ []) :
    pieces (valuesChars xs) = xs.map fun x => (Double.text x).toList := by
  apply pieces_intercalate (by simpa using h)
  intro text htext
  obtain ⟨x, -, rfl⟩ := List.mem_map.1 htext
  exact Double.comma_not_mem_text x

theorem mapM_ofChars?_texts {xs : List Float} (h : ∀ x ∈ xs, x.isNaN = false) :
    (xs.map fun x => (Double.text x).toList).mapM Double.ofChars? = some xs := by
  induction xs with
  | nil => rfl
  | cons x xs ih =>
    rw [List.forall_mem_cons] at h
    rw [List.map_cons, List.mapM_cons, Double.ofChars?_text h.1, ih h.2]
    rfl

theorem readValues?_valuesText {xs : List Float} (h : ∀ x ∈ xs, x.isNaN = false) :
    readValues? (valuesText xs) = some xs := by
  unfold readValues?
  rw [toList_valuesText]
  simp only [List.getLast?_append, List.getLast?_singleton, Option.some_or, List.dropLast_concat,
    if_true, valuesChars_eq_nil_iff]
  split
  case isTrue hnil => rw [hnil]
  case isFalse hne => rw [pieces_valuesChars hne, mapM_ofChars?_texts h]

theorem valuesText_eq_brackets_iff {xs : List Float} : valuesText xs = "[]" ↔ xs = [] := by
  have hbrackets : "[]".toList = '[' :: ([] ++ [']']) := by decide
  rw [← String.toList_inj, toList_valuesText, hbrackets, List.cons.injEq, List.append_left_inj,
    valuesChars_eq_nil_iff]
  exact and_iff_right rfl

theorem values_read_back_from_text {xs : List Float} (h : ∀ x ∈ xs, x.isNaN = false) :
    readValues? (valuesText xs) = some xs ∧
      (∀ ys, valuesText ys = "[]" ↔ ys = []) ∧
      ∀ cs x, Double.ofChars? cs = some x → Double.Denotes cs x :=
  ⟨readValues?_valuesText h, fun _ => valuesText_eq_brackets_iff,
    fun _ _ => Double.denotes_of_ofChars?⟩

theorem values_read_back_from_text_zeros_infinity :
    (∀ x ∈ [0, -0, Double.ofParts .negative Double.infinity], x.isNaN = false) ∧
      readValues? (valuesText [0, -0, Double.ofParts .negative Double.infinity]) =
        some [0, -0, Double.ofParts .negative Double.infinity] ∧
      valuesText [0, -0, Double.ofParts .negative Double.infinity] ≠ "[]" := by
  have hnumbers : ∀ x ∈ [0, -0, Double.ofParts .negative Double.infinity], x.isNaN = false := by
    decide
  obtain ⟨hread, hempty, -⟩ := values_read_back_from_text hnumbers
  exact ⟨hnumbers, hread, fun h => List.cons_ne_nil _ _ ((hempty _).1 h)⟩

end Bracketing
