import Bracketing.Proofs.OperatorLaws
import Bracketing.Tree
import Mathlib.Data.Option.Defs

namespace Bracketing

open Float.Model (Format UnpackedFloat)
open Float.Model.UnpackedFloat (Sign)

namespace Double

/-- The same parts but for the sign of a zero. -/
inductive SameParts : UnpackedFloat → UnpackedFloat → Prop
  | refl (u : UnpackedFloat) : SameParts u u
  | zero (s s' : Sign) : SameParts (.zero s) (.zero s')

namespace SameParts

variable {u u' v v' : UnpackedFloat}

theorem eq_or_zero (h : SameParts u v) : u = v ∨ ∃ s s', u = .zero s ∧ v = .zero s' := by
  cases h with
  | refl => exact .inl rfl
  | zero s s' => exact .inr ⟨s, s', rfl, rfl⟩

theorem map₂ {op : UnpackedFloat → UnpackedFloat → UnpackedFloat}
    (hleft : ∀ s s' v, SameParts (op (.zero s) v) (op (.zero s') v))
    (hright : ∀ s s' u, SameParts (op u (.zero s)) (op u (.zero s')))
    (hu : SameParts u u') (hv : SameParts v v') : SameParts (op u v) (op u' v') := by
  have trans : ∀ {u v w}, SameParts u v → SameParts v w → SameParts u w := by
    rintro u v w ⟨⟩ h
    · exact h
    · cases h <;> exact .zero _ _
  have hfirst : SameParts (op u v) (op u' v) := by
    cases hu with
    | refl => exact .refl _
    | zero s s' => exact hleft s s' v
  cases hv with
  | refl => exact hfirst
  | zero s s' => exact trans hfirst (hright s s' u')

theorem add (f : Format) (hu : SameParts u u') (hv : SameParts v v') :
    SameParts (u.add f v) (u'.add f v') := by
  refine map₂ (fun s s' v => ?_) (fun s s' u => ?_) hu hv
  · cases v with
    | zero r => cases s <;> cases s' <;> cases r <;> exact .zero _ _
    | _ => exact .refl _
  · cases u with
    | zero r => cases s <;> cases s' <;> cases r <;> exact .zero _ _
    | _ => exact .refl _

theorem neg (h : SameParts u v) : SameParts u.neg v.neg := by
  cases h with
  | refl => exact .refl _
  | zero s s' => exact .zero _ _

theorem sub (f : Format) (hu : SameParts u u') (hv : SameParts v v') :
    SameParts (u.sub f v) (u'.sub f v') := by
  rw [parts_sub_eq_add_neg, parts_sub_eq_add_neg]
  exact hu.add f hv.neg

theorem mul (f : Format) (hu : SameParts u u') (hv : SameParts v v') :
    SameParts (u.mul f v) (u'.mul f v') := by
  refine map₂ (fun s s' v => ?_) (fun s s' u => ?_) hu hv
  · cases v with
    | zero r => exact .zero _ _
    | finite r m e hm => exact .zero _ _
    | _ => exact .refl _
  · cases u with
    | zero r => exact .zero _ _
    | finite r m e hm => exact .zero _ _
    | _ => exact .refl _

theorem div (f : Format) (hu : SameParts u u') (hv : SameParts v v') (hne : ∀ s, v ≠ .zero s) :
    SameParts (u.div f v) (u'.div f v') := by
  cases hv with
  | zero s s' => exact absurd rfl (hne s)
  | refl =>
    cases hu with
    | refl => exact .refl _
    | zero s s' =>
      cases v with
      | zero r => exact absurd rfl (hne r)
      | notANumber => exact .refl _
      | infinity r => exact .zero _ _
      | finite r m e hm => exact .zero _ _

theorem compare_then_eq_iff {e e' : Int} {m m' : Nat} :
    (compare e e').then (compare m m') = .eq ↔ e = e' ∧ m = m' := by
  rw [Ordering.then_eq_eq, Std.LawfulEqOrd.compare_eq_iff_eq, Std.LawfulEqOrd.compare_eq_iff_eq]

theorem of_compare (h : u.compare v = some .eq) : SameParts u v := by
  cases u with
  | notANumber => cases h
  | infinity s =>
    cases v with
    | infinity s' => cases s <;> cases s' <;> first | exact .refl _ | cases h
    | _ => cases s <;> cases h
  | zero s =>
    cases v with
    | zero s' => exact .zero _ _
    | notANumber => cases h
    | infinity s' => cases s' <;> cases h
    | finite s' m' e' hm' => cases s' <;> cases h
  | finite s m e hm =>
    cases v with
    | notANumber => cases h
    | infinity s' => cases s' <;> cases h
    | zero s' => cases s <;> cases h
    | finite s' m' e' hm' =>
      cases s <;> cases s'
      · obtain ⟨rfl, rfl⟩ := compare_then_eq_iff.1 (Ordering.swap_eq_eq.1 (Option.some.inj h))
        exact .refl _
      · cases h
      · cases h
      · obtain ⟨rfl, rfl⟩ := compare_then_eq_iff.1 (Option.some.inj h)
        exact .refl _

end SameParts

def Same (x y : Float) : Prop := x = y ∨ IsZero x ∧ IsZero y

section Same

variable {x y x' y' : Float}

theorem unpack_of_isZero (h : IsZero x) : ∃ s, x.toModel.unpack = .zero s := by
  rcases h with rfl | rfl
  · exact ⟨.positive, rfl⟩
  · exact ⟨.negative, rfl⟩

theorem isZero_ofModel_zero (s : Sign) : IsZero (.ofModel (.pack (.zero s))) := by
  cases s with
  | negative => exact .inr rfl
  | positive => exact .inl rfl

theorem Same.parts (h : Same x y) : SameParts x.toModel.unpack y.toModel.unpack := by
  rcases h with rfl | ⟨hx, hy⟩
  · exact .refl _
  · obtain ⟨s, hs⟩ := unpack_of_isZero hx
    obtain ⟨s', hs'⟩ := unpack_of_isZero hy
    rw [hs, hs']
    exact .zero s s'

theorem same_of_parts {u v : UnpackedFloat} (h : SameParts u v) :
    Same (.ofModel (.pack u)) (.ofModel (.pack v)) := by
  cases h with
  | refl => exact .inl rfl
  | zero s s' => exact .inr ⟨isZero_ofModel_zero s, isZero_ofModel_zero s'⟩

theorem isNaN_of_compare {u : UnpackedFloat} {o : Ordering}
    (h : x.toModel.unpack.compare u = some o) : x.isNaN = false := by
  cases hx : x.isNaN with
  | false => rfl
  | true =>
    rw [unpack_toModel, unpacked_of_infinity_lt _ (isNaN_iff.1 hx)] at h
    cases h

theorem eq_of_unpack (hx : x.isNaN = false) (h : x.toModel.unpack = y.toModel.unpack) : x = y := by
  have hy : y.isNaN = false := by
    change y.toModel.unpack.isNaN = false
    rw [← h]
    exact hx
  rw [← ofParts_sign_ordinal (isNaN_eq_false_iff.1 hx), ofParts, ← unpack_toModel, h,
    unpack_toModel, ← ofParts, ofParts_sign_ordinal (isNaN_eq_false_iff.1 hy)]

theorem beq_iff_compare :
    (x == y) = true ↔ x.toModel.unpack.compare y.toModel.unpack = some .eq := by
  change (x.toModel.unpack.compare y.toModel.unpack == some .eq) = true ↔ _
  exact beq_iff_eq

theorem same_of_beq (h : (x == y) = true) : Same x y := by
  have hcompare := beq_iff_compare.1 h
  rcases (SameParts.of_compare hcompare).eq_or_zero with heq | ⟨s, s', hs, hs'⟩
  · exact .inl (eq_of_unpack (isNaN_of_compare hcompare) heq)
  · exact .inr ⟨isZero_of_unpack hs, isZero_of_unpack hs'⟩

theorem compare_self {u : UnpackedFloat} (h : u.isNaN = false) : u.compare u = some .eq := by
  have hthen : ∀ (e : Int) (m : Nat), (compare e e).then (compare m m) = .eq := fun _ _ =>
    SameParts.compare_then_eq_iff.2 ⟨rfl, rfl⟩
  cases u with
  | notANumber => cases h
  | infinity s => cases s <;> rfl
  | zero s => rfl
  | finite s m e hm =>
    cases s with
    | negative => exact congrArg (fun o => some (Ordering.swap o)) (hthen e m)
    | positive => exact congrArg some (hthen e m)

theorem Same.beq_or_isNaN (h : Same x y) :
    (x == y) = true ∨ x.isNaN = true ∧ y.isNaN = true := by
  rcases h with rfl | ⟨hx, hy⟩
  · cases hx : x.isNaN with
    | true => exact .inr ⟨rfl, rfl⟩
    | false => exact .inl (beq_iff_compare.2 (compare_self hx))
  · obtain ⟨s, hs⟩ := unpack_of_isZero hx
    obtain ⟨s', hs'⟩ := unpack_of_isZero hy
    refine .inl (beq_iff_compare.2 ?_)
    rw [hs, hs']
    rfl

end Same

end Double

namespace Operator

open Double (IsZero Same)

variable {x y x' y' : Float}

theorem same_arithmetic (op : Operator) (hx : Same x x') (hy : Same y y')
    (h : ¬ (op = .div ∧ IsZero y)) : Same (op.arithmetic x y) (op.arithmetic x' y') := by
  cases op with
  | add => exact Double.same_of_parts (hx.parts.add .binary64 hy.parts)
  | sub => exact Double.same_of_parts (hx.parts.sub .binary64 hy.parts)
  | mul => exact Double.same_of_parts (hx.parts.mul .binary64 hy.parts)
  | div =>
    refine Double.same_of_parts (hx.parts.div .binary64 hy.parts fun s hs => ?_)
    exact h ⟨rfl, Double.isZero_of_unpack hs⟩

theorem rel_apply (op : Operator) (hx : Same x x') (hy : Same y y') :
    Option.Rel Same (op.apply x y) (op.apply x' y') := by
  have hzero : IsZero y ↔ IsZero y' := by
    rcases hy with rfl | ⟨hy, hy'⟩
    · exact Iff.rfl
    · exact iff_of_true hy hy'
  rw [apply_eq, apply_eq]
  by_cases h : op = .div ∧ IsZero y
  · rw [if_pos h, if_pos (h.imp_right hzero.1)]
    exact .none
  · rw [if_neg h, if_neg fun h' => h (h'.imp_right hzero.2)]
    exact .some (same_arithmetic op hx hy h)

end Operator

namespace Tree

open Double (IsZero Same)

theorem rel_mono {R S : α → β → Prop} {o : Option α} {p : Option β} (hRS : ∀ x y, R x y → S x y)
    (h : Option.Rel R o p) : Option.Rel S o p := by
  cases h with
  | none => exact .none
  | some hxy => exact .some (hRS _ _ hxy)

theorem rel_bind {R : α → β → Prop} {S : γ → δ → Prop} {o : Option α} {p : Option β}
    {f : α → Option γ} {g : β → Option δ} (h : Option.Rel R o p)
    (hfg : ∀ x y, R x y → Option.Rel S (f x) (g y)) : Option.Rel S (o.bind f) (p.bind g) := by
  cases h with
  | none => exact .none
  | some hxy => exact hfg _ _ hxy

theorem rel_value {t u : Tree} (h : (t == u) = true) : Option.Rel Same t.value u.value := by
  induction t generalizing u with
  | leaf x =>
    cases u with
    | leaf y => exact .some (Double.same_of_beq h)
    | node => cases h
  | node op l r ihl ihr =>
    cases u with
    | leaf => cases h
    | node p m s =>
      rw [node_beq_node, Bool.and_eq_true, Bool.and_eq_true] at h
      obtain rfl := eq_of_beq h.1.1
      rw [value_node, value_node]
      exact rel_bind (ihl h.1.2) fun _ _ hx => rel_bind (ihr h.2) fun _ _ hy => op.rel_apply hx hy

theorem value_respects_beq {t u : Tree} (h : (t == u) = true) :
    Option.Rel (fun x y => (x == y) = true ∨ x.isNaN = true ∧ y.isNaN = true) t.value u.value ∧
      Option.Rel Same t.value u.value ∧
      ∀ op : Operator, ∀ x y, (op.apply x y = none ↔ op = .div ∧ IsZero y) ∧
        ∀ z, op.apply x y = some z → op.Conforms x y z := by
  have hsame := rel_value h
  refine ⟨?_, hsame, fun op x y => ⟨Operator.apply_eq_none_iff, fun z hz => ?_⟩⟩
  · exact rel_mono (fun x y => Double.Same.beq_or_isNaN) hsame
  · rw [Operator.apply_eq] at hz
    split at hz
    case isTrue => cases hz
    case isFalse hdiv =>
      cases hz
      exact op.conforms_arithmetic hdiv

theorem value_respects_beq_zeros :
    (node .mul (leaf 0) (leaf 0) == node .mul (leaf (-0)) (leaf 0)) = true ∧
      Option.Rel Same (node .mul (leaf 0) (leaf 0)).value
        (node .mul (leaf (-0)) (leaf 0)).value := by
  have hequal : (node .mul (leaf 0) (leaf 0) == node .mul (leaf (-0)) (leaf 0)) = true := by decide
  exact ⟨hequal, (value_respects_beq hequal).2.1⟩

end Tree

end Bracketing
