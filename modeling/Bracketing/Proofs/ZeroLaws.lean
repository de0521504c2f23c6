import Bracketing.Operator
import Bracketing.Proofs.Double.Parts

namespace Bracketing

open Float.Model (UnpackedFloat)

namespace Double

def IsZero (x : Float) : Prop := x = 0 ∨ x = -0

instance (x : Float) : Decidable (IsZero x) := inferInstanceAs (Decidable (_ ∨ _))

theorem exists_zero_of_compare {u : UnpackedFloat} {s : UnpackedFloat.Sign}
    (h : u.compare (.zero s) = some .eq) : ∃ sign, u = .zero sign := by
  cases u with
  | infinity sign => cases sign <;> cases h
  | notANumber => cases h
  | zero sign => exact ⟨sign, rfl⟩
  | finite sign m e hm => cases sign <;> cases h

theorem isZero_iff {x : Float} : IsZero x ↔ ordinal x = 0 := by
  constructor
  · rintro (rfl | rfl) <;> rfl
  · intro h
    cases hs : sign x with
    | positive => exact .inl (eq_of_parts hs h)
    | negative => exact .inr (eq_of_parts hs h)

theorem isZero_of_unpack {x : Float} {s : UnpackedFloat.Sign}
    (h : x.toModel.unpack = .zero s) : IsZero x := by
  rw [unpack_toModel] at h
  rw [isZero_iff]
  rcases kind_cases (ordinal x) with hk | ⟨hpos, hlt⟩ | hk | hlt
  · exact hk
  · rw [unpacked_of_finite _ hpos hlt] at h
    cases h
  · rw [hk] at h
    cases h
  · rw [unpacked_of_infinity_lt _ hlt] at h
    cases h

theorem beq_zero_iff {x : Float} : (x == 0) = true ↔ IsZero x := by
  constructor
  · intro h
    obtain ⟨s, hs⟩ := exists_zero_of_compare (eq_of_beq h)
    exact isZero_of_unpack hs
  · rintro (rfl | rfl)
    · decide
    · decide

end Double

namespace Operator

def arithmetic : Operator → Float → Float → Float
  | .add, x, y => x + y
  | .sub, x, y => x - y
  | .mul, x, y => x * y
  | .div, x, y => x / y

theorem apply_eq (op : Operator) (x y : Float) :
    op.apply x y = if op = .div ∧ Double.IsZero y then none else some (op.arithmetic x y) := by
  cases op with
  | add => rfl
  | sub => rfl
  | mul => rfl
  | div => simp [apply, arithmetic, Double.beq_zero_iff]

theorem combine_eq (op : Operator) (ls rs : List Float) :
    op.combine ls rs = ls.flatMap fun l => rs.filterMap fun r =>
      if op = .div ∧ Double.IsZero r then none else some (op.arithmetic l r) := by
  simp only [combine, apply_eq]

theorem apply_eq_none_iff {op : Operator} {x y : Float} :
    op.apply x y = none ↔ op = .div ∧ Double.IsZero y := by
  rw [apply_eq]
  split <;> simp [*]

end Operator

end Bracketing
