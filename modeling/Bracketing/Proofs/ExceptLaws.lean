namespace Bracketing

theorem Except.bind_eq_ok_iff {x : Except ε α} {f : α → Except ε β} {b : β} :
    x >>= f = .ok b ↔ ∃ a, x = .ok a ∧ f a = .ok b := by
  cases x with
  | error e => simp [bind, Except.bind]
  | ok a => simp [bind, Except.bind]

theorem Except.bind_eq_error_iff {x : Except ε α} {f : α → Except ε β} {e : ε} :
    x >>= f = .error e ↔ x = .error e ∨ ∃ a, x = .ok a ∧ f a = .error e := by
  cases x with
  | error d => simp [bind, Except.bind]
  | ok a => simp [bind, Except.bind]

theorem Except.toOption_eq_some_iff {x : Except ε α} {a : α} :
    x.toOption = some a ↔ x = .ok a := by
  cases x <;> simp [Except.toOption]

theorem Except.toOption_eq_none_iff {x : Except ε α} :
    x.toOption = none ↔ ∃ e, x = .error e := by
  cases x <;> simp [Except.toOption]

theorem Except.exists_error_iff {x : Except ε α} : (∃ e, x = .error e) ↔ ¬ ∃ a, x = .ok a := by
  cases x <;> simp

theorem Except.eq_none_of_ok {x : Except ε α} {o : Option ε} {a : α}
    (h : ∀ {e}, x = .error e ↔ o = some e) (hx : x = .ok a) : o = none := by
  rw [Option.eq_none_iff_forall_ne_some]
  intro e he
  rw [← h, hx] at he
  cases he

theorem Except.mapError_eq_ok_iff {x : Except ε α} {f : ε → δ} {a : α} :
    x.mapError f = .ok a ↔ x = .ok a := by
  cases x with
  | error e => exact ⟨nofun, nofun⟩
  | ok b =>
    constructor
    · intro h
      rw [Except.ok.inj h]
    · rintro ⟨⟩
      rfl

theorem Except.mapError_eq_error_iff {x : Except ε α} {f : ε → δ} {d : δ} :
    x.mapError f = .error d ↔ ∃ e, x = .error e ∧ f e = d := by
  cases x with
  | error e =>
    constructor
    · intro h
      exact ⟨e, rfl, Except.error.inj h⟩
    · rintro ⟨-, ⟨⟩, rfl⟩
      rfl
  | ok a => exact ⟨nofun, nofun⟩

theorem Except.toOption_bind (x : Except ε α) (f : α → Except ε β) :
    (x >>= f).toOption = x.toOption >>= fun a => (f a).toOption := by
  cases x <;> rfl

theorem Except.toOption_mapM (f : α → Except ε β) (l : List α) :
    (l.mapM f).toOption = l.mapM fun a => (f a).toOption := by
  induction l with
  | nil => rfl
  | cons a l ih =>
    simp only [List.mapM_cons, Except.toOption_bind, ih]
    rfl

theorem flatMapM_eq_map_mapM [Monad m] [LawfulMonad m] (f : α → m (List β)) (l : List α) :
    l.flatMapM f = List.flatten <$> l.mapM f := by
  induction l with
  | nil => simp
  | cons a l ih => simp [ih]

theorem flatMapM_congr [Monad m] [LawfulMonad m] {f g : α → m (List β)} {l : List α}
    (h : ∀ a ∈ l, f a = g a) : l.flatMapM f = l.flatMapM g := by
  induction l with
  | nil => rfl
  | cons a l ih =>
    rw [List.flatMapM_cons, List.flatMapM_cons, h a List.mem_cons_self,
      ih fun b hb => h b (List.mem_cons_of_mem a hb)]

theorem Except.toOption_flatMapM (f : α → Except ε (List β)) (l : List α) :
    (l.flatMapM f).toOption = l.flatMapM fun a => (f a).toOption := by
  simp only [flatMapM_eq_map_mapM, ← Except.toOption_mapM]
  cases l.mapM f <;> rfl

theorem Except.flatMapM_filterMap {f : α → Except ε (List β)} {g : α → Except ε (List γ)}
    {p : β → Option γ} {l : List α} (h : ∀ a ∈ l, g a = (f a).map (List.filterMap p)) :
    l.flatMapM g = (l.flatMapM f).map (List.filterMap p) := by
  induction l with
  | nil => rfl
  | cons a l ih =>
    rw [List.flatMapM_cons, List.flatMapM_cons, h a List.mem_cons_self,
      ih fun b hb => h b (List.mem_cons_of_mem a hb)]
    cases f a with
    | error e => rfl
    | ok bs =>
      cases l.flatMapM f with
      | error e => rfl
      | ok cs => exact congrArg Except.ok List.filterMap_append.symm

theorem Except.flatMapM_of_forall_ok {f : α → Except ε (List β)} {g : α → List β} {l : List α}
    (h : ∀ a ∈ l, f a = .ok (g a)) : l.flatMapM f = .ok (l.flatMap g) := by
  induction l with
  | nil => rfl
  | cons a l ih =>
    rw [List.flatMapM_cons, h a List.mem_cons_self, ih fun b hb => h b (List.mem_cons_of_mem a hb)]
    rfl

theorem Except.flatMapM_eq_ok_iff {f : α → Except ε (List β)} {l : List α} {r : List β} :
    l.flatMapM f = .ok r ↔ ∃ g, (∀ a ∈ l, f a = .ok (g a)) ∧ l.flatMap g = r := by
  constructor
  · intro h
    have hf : ∀ a ∈ l, ∃ bs, f a = .ok bs := by
      induction l generalizing r with
      | nil => simp
      | cons a l ih =>
        simp only [List.flatMapM_cons, Except.bind_eq_ok_iff] at h
        obtain ⟨bs, ha, cs, hl, -⟩ := h
        exact List.forall_mem_cons.2 ⟨⟨bs, ha⟩, ih hl⟩
    have hg : ∀ a ∈ l, f a = .ok ((f a).toOption.getD []) := by
      intro a ha
      obtain ⟨bs, hbs⟩ := hf a ha
      rw [hbs]
      rfl
    refine ⟨fun a => (f a).toOption.getD [], hg, ?_⟩
    simpa [Except.flatMapM_of_forall_ok hg] using h
  · rintro ⟨g, hg, rfl⟩
    exact Except.flatMapM_of_forall_ok hg

theorem Except.exists_flatMapM_eq_ok {f : α → Except ε (List β)} {l : List α}
    (h : ∀ a ∈ l, ∃ bs, f a = .ok bs) : ∃ r, l.flatMapM f = .ok r := by
  induction l with
  | nil => exact ⟨[], rfl⟩
  | cons a l ih =>
    obtain ⟨⟨bs, ha⟩, hl⟩ := List.forall_mem_cons.1 h
    obtain ⟨cs, hcs⟩ := ih hl
    refine ⟨bs ++ cs, ?_⟩
    rw [List.flatMapM_cons, ha, hcs]
    rfl

theorem Option.mapM_bind_mapM (f : α → Option β) (g : α → Option γ) (h : β → γ → δ) (l : List α) :
    (do
      let xs ← l.mapM f
      let ys ← l.mapM g
      return List.zipWith h xs ys) = l.mapM fun a => do return h (← f a) (← g a) := by
  induction l with
  | nil => rfl
  | cons a l ih =>
    simp only [List.mapM_cons, ← ih]
    cases f a with
    | none => rfl
    | some b =>
      cases g a with
      | none => cases l.mapM f <;> rfl
      | some c => cases l.mapM f <;> cases l.mapM g <;> rfl

end Bracketing
