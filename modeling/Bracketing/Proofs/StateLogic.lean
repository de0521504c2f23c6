namespace Bracketing

variable {σ ε α β : Type}

section Run

variable {work : ExceptT ε (StateM σ) α} {before after : σ}

theorem run_bind_ok {a : α} (next : α → ExceptT ε (StateM σ) β)
    (h : work.run.run before = (.ok a, after)) :
    (work >>= next).run.run before = (next a).run.run after := by
  simp only [ExceptT.run_bind, StateT.run_bind, h]
  rfl

theorem run_bind_error {e : ε} (next : α → ExceptT ε (StateM σ) β)
    (h : work.run.run before = (.error e, after)) :
    (work >>= next).run.run before = (.error e, after) := by
  simp only [ExceptT.run_bind, StateT.run_bind, h]
  rfl

theorem run_lift (x : Except ε α) (state : σ) :
    (liftM x : ExceptT ε (StateM σ) α).run.run state = (x, state) := by
  rfl

theorem run_get (state : σ) :
    (get : ExceptT ε (StateM σ) σ).run.run state = (.ok state, state) := by
  rfl

theorem run_modify (f : σ → σ) (state : σ) :
    (modify f : ExceptT ε (StateM σ) Unit).run.run state = (.ok ⟨⟩, f state) := by
  rfl

end Run

structure Upkeep (σ : Type) where
  holds : σ → Prop
  changes : σ → σ → Prop
  refl : ∀ state, changes state state
  trans : ∀ {a b c}, changes a b → changes b c → changes a c

namespace Upkeep

/-- From every state in good order `work` comes to `outcome`, be it an error, and leaves a state in
good order. -/
def Comes (u : Upkeep σ) (work : ExceptT ε (StateM σ) α) (outcome : Except ε α) : Prop :=
  ∀ before, u.holds before →
    ∃ after, work.run.run before = (outcome, after) ∧ u.holds after ∧ u.changes before after

variable {u : Upkeep σ}

theorem comes_lift (x : Except ε α) : u.Comes (liftM x) x := by
  intro state hstate
  exact ⟨state, run_lift x state, hstate, u.refl state⟩

theorem comes_pure (a : α) : u.Comes (pure a : ExceptT ε (StateM σ) α) (.ok a) := comes_lift (.ok a)

theorem comes_throw (e : ε) : u.Comes (throw e : ExceptT ε (StateM σ) α) (.error e) :=
  comes_lift (.error e)

theorem comes_modify {f : σ → σ} (h : ∀ state, u.holds state → u.holds (f state))
    (hchange : ∀ state, u.changes state (f state)) :
    u.Comes (modify f : ExceptT ε (StateM σ) Unit) (.ok ()) := by
  intro state hstate
  exact ⟨f state, run_modify f state, h state hstate, hchange state⟩

theorem comes_bind {work : ExceptT ε (StateM σ) α} {x : Except ε α}
    {next : α → ExceptT ε (StateM σ) β} {f : α → Except ε β} (h : u.Comes work x)
    (hnext : ∀ a, x = .ok a → u.Comes (next a) (f a)) : u.Comes (work >>= next) (x >>= f) := by
  intro before hbefore
  obtain ⟨middle, hrun, hmiddle, hchange⟩ := h before hbefore
  cases x with
  | error e => exact ⟨middle, run_bind_error next hrun, hmiddle, hchange⟩
  | ok a =>
    obtain ⟨after, hrun', hafter, hchange'⟩ := hnext a rfl middle hmiddle
    rw [← run_bind_ok next hrun] at hrun'
    exact ⟨after, hrun', hafter, u.trans hchange hchange'⟩

theorem comes_bind_of_ok {work : ExceptT ε (StateM σ) α} {a : α}
    {next : α → ExceptT ε (StateM σ) β} {y : Except ε β} (h : u.Comes work (.ok a))
    (hnext : u.Comes (next a) y) : u.Comes (work >>= next) y := by
  apply comes_bind (f := fun _ => y) h
  rintro _ ⟨⟩
  exact hnext

theorem comes_flatMapM {work : α → ExceptT ε (StateM σ) (List β)} {f : α → Except ε (List β)}
    {l : List α} (h : ∀ a ∈ l, u.Comes (work a) (f a)) :
    u.Comes (l.flatMapM work) (l.flatMapM f) := by
  induction l with
  | nil => exact comes_pure []
  | cons a l ih =>
    rw [List.flatMapM_cons, List.flatMapM_cons]
    apply comes_bind (h a List.mem_cons_self)
    intro bs _
    apply comes_bind (ih fun b hb => h b (List.mem_cons_of_mem a hb))
    intro cs _
    exact comes_pure (bs ++ cs)

end Upkeep

end Bracketing
