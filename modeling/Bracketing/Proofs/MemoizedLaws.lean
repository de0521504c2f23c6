import Bracketing.Proofs.CutLaws
import Bracketing.Proofs.MemoLogic
import Bracketing.Strategy

/-!
Working each span out once gives what working it out anew every time gives. Spans tell the parts of a
token list apart by place, so all rests on the sides of a cut being found where the cut says.
-/

namespace Bracketing

namespace Evaluation

namespace Span

def Within (s : Span) (ts : List Token) : Prop := s.offset + s.length ≤ ts.length

def tokens (s : Span) (ts : List Token) : List Token := (ts.drop s.offset).take s.length

def left (s : Span) (c : Cut) : Span := ⟨s.offset, c.left.length⟩

def right (s : Span) (c : Cut) : Span := ⟨s.offset + c.left.length + 1, c.right.length⟩

theorem length_tokens {s : Span} {ts : List Token} (h : s.Within ts) :
    (s.tokens ts).length = s.length := by
  simp only [Within] at h
  simp only [tokens, List.length_take, List.length_drop]
  omega

theorem tokens_all (ts : List Token) : tokens ⟨0, ts.length⟩ ts = ts := by
  simp [tokens]

variable {s : Span} {ts : List Token} {c : Cut}

theorem length_of_cut (h : s.Within ts) (hc : c ∈ Cut.all (s.tokens ts)) :
    c.left.length + 1 + c.right.length = s.length := by
  rw [Cut.length_of_mem hc, length_tokens h]

theorem left_within (h : s.Within ts) (hc : c ∈ Cut.all (s.tokens ts)) :
    (s.left c).Within ts := by
  have hlen := length_of_cut h hc
  simp only [Within, left] at *
  omega

theorem right_within (h : s.Within ts) (hc : c ∈ Cut.all (s.tokens ts)) :
    (s.right c).Within ts := by
  have hlen := length_of_cut h hc
  simp only [Within, right] at *
  omega

theorem tokens_left (h : s.Within ts) (hc : c ∈ Cut.all (s.tokens ts)) :
    (s.left c).tokens ts = c.left := by
  have hlen := length_of_cut h hc
  calc (s.left c).tokens ts = (s.tokens ts).take c.left.length := by
        rw [tokens, tokens, left, List.take_take, Nat.min_eq_left (by omega)]
    _ = c.left := by rw [← Cut.append_of_mem hc, List.take_left]

theorem tokens_right (h : s.Within ts) (hc : c ∈ Cut.all (s.tokens ts)) :
    (s.right c).tokens ts = c.right := by
  have hlen := length_of_cut h hc
  calc (s.right c).tokens ts = (s.tokens ts).drop (c.left.length + 1) := by
        rw [tokens, tokens, right, List.drop_take, List.drop_drop, Nat.add_assoc,
          show s.length - (c.left.length + 1) = c.right.length by omega]
    _ = c.right := by
        rw [← Cut.append_of_mem hc, ← List.drop_drop, List.drop_left, List.drop_one, List.tail_cons]

end Span

namespace Cache

/-- Every entry lies within `ts` and is what its span comes to. -/
def Sound (ts : List Token) (cache : Cache) : Prop :=
  ∀ s values, cache.find? s = some values → s.Within ts ∧ sequential (s.tokens ts) = .ok values

def Extends (before after : Cache) : Prop :=
  ∀ s values, before.find? s = some values → after.find? s = some values

theorem sound_empty (ts : List Token) : empty.Sound ts := by
  intro s values h
  simp at h

theorem Sound.insert {cache : Cache} {ts : List Token} {s : Span} {values : List Float}
    (h : cache.Sound ts) (hs : s.Within ts) (hvalues : sequential (s.tokens ts) = .ok values) :
    (cache.insert s values).Sound ts := by
  intro t found ht
  rw [find?_insert] at ht
  split at ht
  · subst s
    cases ht
    exact ⟨hs, hvalues⟩
  · exact h t found ht

theorem Sound.extends_insert {cache : Cache} {ts : List Token} {s : Span} {values : List Float}
    (h : cache.Sound ts) (hvalues : sequential (s.tokens ts) = .ok values) :
    cache.Extends (cache.insert s values) := by
  intro t found ht
  rw [find?_insert]
  split
  · subst s
    have hfound := (h t found ht).2
    rw [hvalues] at hfound
    rw [Except.ok.inj hfound]
  · exact ht

end Cache

def soundness (ts : List Token) : Upkeep Cache where
  holds := Cache.Sound ts
  changes := Cache.Extends
  refl := fun _ _ _ h => h
  trans := fun hab hbc s values h => hbc s values (hab s values h)

variable {ts : List Token} {s : Span}

theorem soundness_remember {work : Memo (List Float)} (hs : s.Within ts)
    (h : (soundness ts).Comes work (sequential (s.tokens ts))) :
    (soundness ts).Comes (remember s work) (sequential (s.tokens ts)) := by
  intro before hbefore
  cases hfind : before.find? s with
  | some values =>
    refine ⟨before, ?_, hbefore, (soundness ts).refl before⟩
    rw [Memo.run_remember_hit work hfind, (hbefore s values hfind).2]
  | none =>
    obtain ⟨after, hrun, hafter, hchange⟩ := h before hbefore
    cases hvalues : sequential (s.tokens ts) with
    | error fault =>
      rw [hvalues] at hrun
      exact ⟨after, Memo.run_remember_error hfind hrun, hafter, hchange⟩
    | ok values =>
      rw [hvalues] at hrun
      refine ⟨after.insert s values, Memo.run_remember_ok hfind hrun, hafter.insert hs hvalues, ?_⟩
      exact (soundness ts).trans hchange (hafter.extends_insert hvalues)

theorem soundness_memoizedAt (s : Span) (hs : s.Within ts) :
    (soundness ts).Comes (memoizedAt s.offset (s.tokens ts)) (sequential (s.tokens ts)) := by
  rw [memoizedAt_eq, Span.length_tokens hs]
  apply soundness_remember hs
  unfold memoizedParts
  split
  next values hshort =>
    rw [sequential_of_short hshort]
    exact Upkeep.comes_lift values
  next hlong =>
    rw [sequential_of_long hlong]
    apply Upkeep.comes_flatMapM
    intro c hc
    have hleft := soundness_memoizedAt (s.left c) (Span.left_within hs hc)
    have hright := soundness_memoizedAt (s.right c) (Span.right_within hs hc)
    rw [Span.tokens_left hs hc] at hleft
    rw [Span.tokens_right hs hc] at hright
    apply Upkeep.comes_bind (Upkeep.comes_lift _)
    intro op _
    apply Upkeep.comes_bind hleft
    intro ls _
    apply Upkeep.comes_bind hright
    intro rs _
    exact Upkeep.comes_pure (op.combine ls rs)
termination_by s.length
decreasing_by
  · have hlen := Span.length_of_cut hs hc
    simp only [Span.left]
    omega
  · have hlen := Span.length_of_cut hs hc
    simp only [Span.right]
    omega

theorem memoized_eq_sequential (ts : List Token) : memoized ts = sequential ts := by
  have hwhole : Span.Within ⟨0, ts.length⟩ ts := by simp [Span.Within]
  have hcomes := soundness_memoizedAt ⟨0, ts.length⟩ hwhole
  rw [Span.tokens_all] at hcomes
  obtain ⟨after, hrun, -, -⟩ := hcomes .empty (Cache.sound_empty ts)
  exact congrArg Prod.fst hrun

end Evaluation

theorem Strategy.evaluate_memoized (ts : List Token) :
    Strategy.memoized.evaluate ts = Strategy.sequential.evaluate ts :=
  Evaluation.memoized_eq_sequential ts

end Bracketing
