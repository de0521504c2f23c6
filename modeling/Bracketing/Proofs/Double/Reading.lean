import Bracketing.Double.Text
import Bracketing.Proofs.DecimalLaws

namespace Bracketing

open Float.Model.UnpackedFloat (Sign)

namespace Double

def signChars : Sign → List Char
  | .negative => ['-']
  | .positive => []

def ordinalChars (k : Nat) : List Char :=
  if k = infinity then "inf".toList else (Decimal.shortest k).chars

theorem toList_text {x : Float} (h : x.isNaN = false) :
    (text x).toList = signChars (sign x) ++ ordinalChars (ordinal x) := by
  have hsign : (if isNegative x then "-" else "").toList = signChars (sign x) := by
    cases hs : sign x with
    | negative =>
      rw [if_pos (isNegative_iff.2 hs)]
      rfl
    | positive =>
      rw [if_neg (by simp [isNegative_iff, hs])]
      rfl
  have htext : text x = if infinity < ordinal x then "NaN"
      else (if isNegative x then "-" else "") ++
        if ordinal x = infinity then "inf" else (Decimal.shortest (ordinal x)).text := rfl
  rw [htext, if_neg (Nat.not_lt.2 (isNaN_eq_false_iff.1 h)), String.toList_append, hsign,
    ordinalChars]
  split
  case isTrue => rfl
  case isFalse => rw [Decimal.text, String.toList_ofList]

def ordinalOfChars? (cs : List Char) : Option Nat :=
  if cs = "inf".toList then some infinity else (Decimal.ofChars? cs).map Decimal.nearest

def ofChars? (cs : List Char) : Option Float :=
  if cs.head? = some '-' then (ordinalOfChars? cs.tail).map (ofParts .negative)
  else (ordinalOfChars? cs).map (ofParts .positive)

theorem ordinalOfChars?_of_decimal {cs : List Char} {d : Decimal}
    (h : Decimal.ofChars? cs = some d) : ordinalOfChars? cs = some d.nearest := by
  have hne : cs ≠ "inf".toList := by
    rintro rfl
    cases h
  rw [ordinalOfChars?, if_neg hne, h]
  rfl

theorem ordinalOfChars?_ordinalChars {k : Nat} (h : k ≤ infinity) :
    ordinalOfChars? (ordinalChars k) = some k := by
  unfold ordinalChars
  split
  case isTrue hk =>
    rw [hk]
    rfl
  case isFalse =>
    rw [ordinalOfChars?_of_decimal (Decimal.ofChars?_chars _), Decimal.nearest_shortest h]

theorem ordinalOfChars?_minus (cs : List Char) : ordinalOfChars? ('-' :: cs) = none := by
  have hnumeral : ∀ whole, Operand.isNumeral ('-' :: whole) = false := fun _ => rfl
  have hdecimal : Decimal.ofChars? ('-' :: cs) = none := by
    rw [Decimal.ofChars?, List.takeWhile_cons_of_pos (by decide),
      List.dropWhile_cons_of_pos (by decide)]
    simp only [hnumeral]
    split <;> rfl
  rw [ordinalOfChars?, if_neg (by simp), hdecimal]
  rfl

theorem ofChars?_sign_append (s : Sign) {cs : List Char} {k : Nat}
    (h : ordinalOfChars? cs = some k) : ofChars? (signChars s ++ cs) = some (ofParts s k) := by
  cases s with
  | negative =>
    change ite (some '-' = some '-') ((ordinalOfChars? cs).map (ofParts .negative)) _ = _
    rw [if_pos rfl, h]
    rfl
  | positive =>
    have hhead : cs.head? ≠ some '-' := by
      intro hhead
      rw [← List.cons_head?_tail hhead, ordinalOfChars?_minus] at h
      cases h
    rw [signChars, List.nil_append, ofChars?, if_neg hhead, h]
    rfl

theorem ofChars?_text {x : Float} (h : x.isNaN = false) : ofChars? (text x).toList = some x := by
  have hk := isNaN_eq_false_iff.1 h
  rw [toList_text h, ofChars?_sign_append _ (ordinalOfChars?_ordinalChars hk),
    ofParts_sign_ordinal hk]

theorem eq_of_text {x y : Float} (hx : x.isNaN = false) (hy : y.isNaN = false)
    (h : text x = text y) : x = y := by
  rw [← Option.some_inj, ← ofChars?_text hx, h, ofChars?_text hy]

/-- What a text with a sign or none says, that the double has the sign and is infinite where the text
has the word for it, and the nearest one where it has a decimal. -/
inductive Denotes : List Char → Float → Prop
  | infinity (s : Sign) : Denotes (signChars s ++ "inf".toList) (ofParts s infinity)
  | decimal {s : Sign} {cs : List Char} {d : Decimal} {x : Float} : Decimal.ofChars? cs = some d →
      sign x = s → RoundsTo (signed s d.toRat) x → Denotes (signChars s ++ cs) x

theorem denotes_of_ordinalOfChars? (s : Sign) {cs : List Char} {k : Nat}
    (h : ordinalOfChars? cs = some k) : Denotes (signChars s ++ cs) (ofParts s k) := by
  unfold ordinalOfChars? at h
  split at h
  case isTrue hinf =>
    cases h
    rw [hinf]
    exact .infinity s
  case isFalse =>
    obtain ⟨d, hd, rfl⟩ := Option.map_eq_some_iff.1 h
    exact .decimal hd (sign_ofParts s d.covers_nearest.le_infinity) (d.roundsTo_nearest s)

theorem denotes_of_ofChars? {cs : List Char} {x : Float} (h : ofChars? cs = some x) :
    Denotes cs x := by
  unfold ofChars? at h
  split at h
  case isTrue hhead =>
    obtain ⟨k, hk, rfl⟩ := Option.map_eq_some_iff.1 h
    rw [← List.cons_head?_tail hhead]
    exact denotes_of_ordinalOfChars? .negative hk
  case isFalse =>
    obtain ⟨k, hk, rfl⟩ := Option.map_eq_some_iff.1 h
    exact denotes_of_ordinalOfChars? .positive hk

end Double

end Bracketing
