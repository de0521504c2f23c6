import Bracketing.Proofs.MemoizedLaws
import Bracketing.Proofs.SequentialLaws
import Bracketing.Proofs.SpanLaws
import Mathlib.Data.List.Perm.Subperm

namespace Bracketing.Evaluation

open Relation

namespace Cache

inductive Enters (fits : Span → Prop) (cache : Cache) : Cache → Prop
  | intro (s : Span) (values : List Float) :
      fits s → cache.find? s = none → Enters fits cache (cache.insert s values)

def Grows (fits : Span → Prop) : Cache → Cache → Prop := ReflTransGen (Enters fits)

/-- What a call for `s` may come to and leave behind. If `s` is not there, spans that `fits` are
entered, after which `s` is still not there; it is entered itself unless a fault came up. -/
inductive Call (fits : Span → Prop) (s : Span) (before : Cache) :
    Except Fault (List Float) × Cache → Prop
  | known {values : List Float} : before.find? s = some values →
      Call fits s before (.ok values, before)
  | faulty {fault : Fault} {now : Cache} : before.find? s = none → before.Grows fits now →
      now.find? s = none → Call fits s before (.error fault, now)
  | entered {values : List Float} {now : Cache} : before.find? s = none → before.Grows fits now →
      now.find? s = none → Call fits s before (.ok values, now.insert s values)

variable {fits wide : Span → Prop} {before after : Cache} {s : Span}

theorem Enters.mono (h : ∀ s, fits s → wide s) (henters : Enters fits before after) :
    Enters wide before after := by
  cases henters with
  | intro s values hfits habsent => exact .intro s values (h s hfits) habsent

theorem Grows.mono (h : ∀ s, fits s → wide s) (hgrows : before.Grows fits after) :
    before.Grows wide after :=
  ReflTransGen.mono (fun _ _ => Enters.mono h) before after hgrows

theorem Grows.find?_eq (h : before.Grows fits after) (hs : ¬ fits s) :
    after.find? s = before.find? s := by
  induction h with
  | refl => rfl
  | tail _ henters ih =>
    cases henters with
    | intro t values ht _ =>
      rw [find?_insert, if_neg, ih]
      rintro rfl
      exact hs ht

theorem Grows.forall_mem_filled (h : before.Grows fits after)
    (hbefore : ∀ s ∈ before.filled, fits s) : ∀ s ∈ after.filled, fits s := by
  induction h with
  | refl => exact hbefore
  | tail _ henters ih =>
    cases henters with
    | intro s values hs _ => exact List.forall_mem_cons.2 ⟨hs, ih⟩

theorem Call.mono {result : Except Fault (List Float) × Cache} (h : ∀ s, fits s → wide s)
    (hcall : Call fits s before result) : Call wide s before result := by
  cases hcall with
  | known hs => exact .known hs
  | faulty habsent hgrows habsent' => exact .faulty habsent (hgrows.mono h) habsent'
  | entered habsent hgrows habsent' => exact .entered habsent (hgrows.mono h) habsent'

theorem Call.grows {result : Except Fault (List Float) × Cache} (hcall : Call fits s before result)
    (h : ∀ s, fits s → wide s) (hs : wide s) : before.Grows wide result.2 := by
  cases hcall with
  | known _ => exact .refl
  | faulty _ hgrows _ => exact hgrows.mono h
  | entered _ hgrows habsent => exact (hgrows.mono h).tail (.intro s _ hs habsent)

theorem Call.find?_eq {values : List Float} (hcall : Call fits s before (.ok values, after)) :
    after.find? s = some values := by
  cases hcall with
  | known hs => exact hs
  | entered _ _ _ => exact find?_insert_self _ s values

structure FilledOnce (cache : Cache) : Prop where
  nodup : cache.filled.Nodup
  mem_iff : ∀ s, s ∈ cache.filled ↔ cache.find? s ≠ none
  size_eq : cache.values.size = cache.filled.length

theorem filledOnce_empty : empty.FilledOnce where
  nodup := List.nodup_nil
  mem_iff s := by simp [empty, find?]
  size_eq := Std.HashMap.size_empty

theorem FilledOnce.insert {cache : Cache} (h : cache.FilledOnce) (habsent : cache.find? s = none)
    (values : List Float) : (cache.insert s values).FilledOnce where
  nodup := List.nodup_cons.2 ⟨fun hs => (h.mem_iff s).1 hs habsent, h.nodup⟩
  mem_iff t := by
    rw [filled_insert, List.mem_cons, h.mem_iff, find?_insert]
    by_cases hts : t = s
    · simp [hts]
    · simp [hts, Ne.symm hts]
  size_eq := by
    have hs : s ∉ cache.values := by
      rw [Std.HashMap.mem_iff_isSome_getElem?, ← find?, habsent]
      exact Bool.false_ne_true
    rw [filled_insert, List.length_cons, ← h.size_eq]
    exact Std.HashMap.size_insert.trans (if_neg hs)

theorem FilledOnce.grows (h : before.FilledOnce) (hgrows : before.Grows fits after) :
    after.FilledOnce := by
  induction hgrows with
  | refl => exact h
  | tail _ henters ih =>
    cases henters with
    | intro s values _ habsent => exact ih.insert habsent values

theorem size_le_of_grows {n : Nat} {cache : Cache} (h : empty.Grows (Span.Placed n) cache) :
    cache.values.size ≤ (n / 2 + 1) * (n / 2 + 2) / 2 := by
  have honce := filledOnce_empty.grows h
  have hplaces : cache.filled ⊆ Span.places n :=
    fun s hs => (h.forall_mem_filled (by simp [empty]) s hs).mem_places
  calc cache.values.size = cache.filled.length := honce.size_eq
    _ ≤ (Span.places n).length := (List.subperm_of_subset honce.nodup hplaces).length_le
    _ = (n / 2 + 1) * (n / 2 + 2) / 2 := Span.length_places n

end Cache

namespace Memo

def Enters (fits : Span → Prop) (work : Memo α) : Prop :=
  ∀ before : Cache, before.Grows fits (work.run.run before).2

variable {fits wide : Span → Prop}

theorem Enters.mono {work : Memo α} (h : ∀ s, fits s → wide s) (hwork : work.Enters fits) :
    work.Enters wide :=
  fun before => (hwork before).mono h

theorem enters_lift (x : Except Fault α) : Enters fits (liftM x) := fun _ => .refl

theorem enters_bind {work : Memo α} {next : α → Memo β} (h : work.Enters fits)
    (hnext : ∀ a, (next a).Enters fits) : Enters fits (work >>= next) := by
  intro before
  have hmiddle := h before
  rcases hwork : work.run.run before with ⟨outcome, middle⟩
  rw [hwork] at hmiddle
  cases outcome with
  | error fault =>
    rw [run_bind_error next hwork]
    exact hmiddle
  | ok a =>
    rw [run_bind_ok next hwork]
    exact hmiddle.trans (hnext a middle)

theorem enters_flatMapM {work : α → Memo (List β)} {l : List α}
    (h : ∀ a ∈ l, (work a).Enters fits) : Enters fits (l.flatMapM work) := by
  induction l with
  | nil => exact enters_lift (.ok [])
  | cons a l ih =>
    rw [List.flatMapM_cons]
    apply enters_bind (h a List.mem_cons_self)
    intro bs
    apply enters_bind (ih fun b hb => h b (List.mem_cons_of_mem a hb))
    intro cs
    exact enters_lift (.ok (bs ++ cs))

theorem call_remember {span : Span} {work : Memo (List Float)} (h : work.Enters fits)
    (hspan : ¬ fits span) (before : Cache) :
    before.Call fits span ((remember span work).run.run before) := by
  cases hfind : before.find? span with
  | some values =>
    rw [run_remember_hit work hfind]
    exact .known hfind
  | none =>
    have hnow := h before
    rcases hwork : work.run.run before with ⟨outcome, now⟩
    rw [hwork] at hnow
    have habsent := (hnow.find?_eq hspan).trans hfind
    cases outcome with
    | error fault =>
      rw [run_remember_error hfind hwork]
      exact .faulty hfind hnow habsent
    | ok values =>
      rw [run_remember_ok hfind hwork]
      exact .entered hfind hnow habsent

end Memo

theorem call_memoizedAt_of_parts {offset : Nat} {ts : List Token}
    (h : (memoizedParts offset ts).Enters (TransGen Span.Side ⟨offset, ts.length⟩))
    (before : Cache) :
    before.Call (TransGen Span.Side ⟨offset, ts.length⟩) ⟨offset, ts.length⟩
      ((memoizedAt offset ts).run.run before) := by
  rw [memoizedAt_eq]
  exact Memo.call_remember h (Span.not_transGen_self _) before

theorem enters_memoizedAt_of_parts {offset : Nat} {ts : List Token}
    (h : (memoizedParts offset ts).Enters (TransGen Span.Side ⟨offset, ts.length⟩)) :
    (memoizedAt offset ts).Enters (ReflTransGen Span.Side ⟨offset, ts.length⟩) :=
  fun before => (call_memoizedAt_of_parts h before).grows (fun _ => TransGen.to_reflTransGen) .refl

theorem enters_memoizedParts (offset : Nat) (ts : List Token) :
    (memoizedParts offset ts).Enters (TransGen Span.Side ⟨offset, ts.length⟩) := by
  unfold memoizedParts
  split
  next values _ => exact Memo.enters_lift values
  next =>
    apply Memo.enters_flatMapM
    intro c hc
    have hleft := enters_memoizedAt_of_parts (enters_memoizedParts offset c.left)
    have hright := enters_memoizedAt_of_parts
      (enters_memoizedParts (offset + c.left.length + 1) c.right)
    apply Memo.enters_bind (Memo.enters_lift _)
    intro op
    apply Memo.enters_bind (hleft.mono fun _ => .head' (.of_cut_left hc))
    intro ls
    apply Memo.enters_bind (hright.mono fun _ => .head' (.of_cut_right hc))
    intro rs
    exact Memo.enters_lift (.ok (op.combine ls rs))
termination_by ts.length
decreasing_by
  · exact Cut.length_left_lt hc
  · exact Cut.length_right_lt hc

theorem call_memoizedAt (offset : Nat) (ts : List Token) (before : Cache) :
    before.Call (TransGen Span.Side ⟨offset, ts.length⟩) ⟨offset, ts.length⟩
      ((memoizedAt offset ts).run.run before) :=
  call_memoizedAt_of_parts (enters_memoizedParts offset ts) before

theorem memoizedAt_of_sound_cache {ts : List Token} {s : Span} {before : Cache} (hs : s.Within ts)
    (hbefore : before.Sound ts) :
    ∃ after,
      (memoizedAt s.offset (s.tokens ts)).run.run before = (sequential (s.tokens ts), after) ∧
        after.Sound ts ∧ before.Extends after ∧
          ∀ values, sequential (s.tokens ts) = .ok values → after.find? s = some values := by
  obtain ⟨after, hrun, hafter, hextends⟩ := soundness_memoizedAt s hs before hbefore
  refine ⟨after, hrun, hafter, hextends, fun values hvalues => ?_⟩
  have hcall := call_memoizedAt s.offset (s.tokens ts) before
  rw [hrun, hvalues, Span.length_tokens hs] at hcall
  exact hcall.find?_eq

def numberless : List Token :=
  [.operand "7", .operator .sub, .operand "0", .operator .div, .operand "0", .operator .mul,
    .operand "x"]

theorem memoizedAt_of_sound_cache_numberless :
    Span.Within ⟨2, 5⟩ numberless ∧ (Cache.empty.insert ⟨2, 3⟩ []).Sound numberless ∧
      ∃ after,
        (memoizedAt 2 (Span.tokens ⟨2, 5⟩ numberless)).run.run (Cache.empty.insert ⟨2, 3⟩ []) =
            (.error (.operand "x"), after) ∧
          after.Sound numberless ∧ after.find? ⟨2, 3⟩ = some [] := by
  have zero : (Token.operand "0").toValue = .ok 0 :=
    congrArg Except.ok (by decide +kernel : Operand.value ['0'] = 0)
  have hquotient : sequential [.operand "0", .operator .div, .operand "0"] = .ok [] := by
    rw [sequential_operation, operation, zero]
    rfl
  have hproduct : sequential [.operand "0", .operator .mul, .operand "x"] =
      .error (.operand "x") := by
    rw [sequential_operation, operation, zero]
    rfl
  have htokens : Span.tokens ⟨2, 5⟩ numberless = [.operand "0", .operator .div, .operand "0",
      .operator .mul, .operand "x"] := rfl
  have hfault : sequential (Span.tokens ⟨2, 5⟩ numberless) = .error (.operand "x") := by
    rw [htokens]
    refine (sequential_eq_gather _ _ _).trans (Cut.gather_of_first_error ?_)
    rw [Cut.outcome, hproduct, sequential_singleton, zero]
    rfl
  have hs : Span.Within ⟨2, 5⟩ numberless := by
    simp [Span.Within, numberless]
  have hsound : (Cache.empty.insert ⟨2, 3⟩ []).Sound numberless :=
    (Cache.sound_empty numberless).insert (by simp [Span.Within, numberless]) hquotient
  obtain ⟨after, hrun, hafter, hextends, -⟩ := memoizedAt_of_sound_cache hs hsound
  rw [hfault] at hrun
  exact ⟨hs, hsound, after, hrun, hafter, hextends _ _ (Cache.find?_insert_self _ _ _)⟩

def cacheAfter (ts : List Token) : Cache := ((memoizedAt 0 ts).run.run .empty).2

theorem grows_cacheAfter (ts : List Token) :
    Cache.empty.Grows (Span.Placed ts.length) (cacheAfter ts) := by
  have hwhole := Span.placed_whole ts.length
  exact (call_memoizedAt 0 ts .empty).grows
    (fun _ hs => hwhole.of_reflTransGen hs.to_reflTransGen) hwhole

/-- First what any call does, from whatever cache; then what a whole run has entered in the end, and
how much a cache can hold on the way there. -/
theorem memoizedAt_enters_each_span_once (ts : List Token) :
    (∀ (offset : Nat) (part : List Token) (before : Cache),
      before.Call (fun s => s.length < part.length ∧ s.Inside ⟨offset, part.length⟩)
        ⟨offset, part.length⟩ ((memoizedAt offset part).run.run before)) ∧
      Cache.empty.Grows (Span.Placed ts.length) (cacheAfter ts) ∧
      (cacheAfter ts).FilledOnce ∧
      (∀ s ∈ (cacheAfter ts).filled, s.Placed ts.length) ∧
      ∀ now, Cache.empty.Grows (Span.Placed ts.length) now →
        now.values.size ≤ (ts.length / 2 + 1) * (ts.length / 2 + 2) / 2 := by
  have hgrows := grows_cacheAfter ts
  refine ⟨fun offset part before => ?_, hgrows, Cache.filledOnce_empty.grows hgrows,
    hgrows.forall_mem_filled (by simp [Cache.empty]), fun _ => Cache.size_le_of_grows⟩
  apply (call_memoizedAt offset part before).mono
  intro s hs
  exact ⟨Span.length_lt_of_transGen hs, Span.inside_of_transGen hs⟩

end Bracketing.Evaluation
