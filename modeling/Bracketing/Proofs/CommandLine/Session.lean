import Bracketing.CommandLine.Run
import Bracketing.Proofs.StateLogic

namespace Bracketing.CommandLine

theorem LogLevel.rank_pos {level : LogLevel} (h : level ≠ .error) :
    LogLevel.error.rank < level.rank := by
  cases level with
  | error => exact absurd rfl h
  | _ => decide

def report (settings : Settings) : Except Fault String :=
  if settings.showTrees then
    (trees settings.expression).map fun ts => String.join (ts.map Tree.line)
  else
    (settings.chosenStrategy.values settings.expression).map fun xs => valuesText xs ++ "\n"

def result (settings : Settings) : Except String String := do
  (validate settings.expression).mapError Rejection.message
  (report settings).mapError (failureMessage settings.expression)

def answer (settings : Settings) : Answer := .ofResult (result settings)

/-- Entries are only added to the log, and only such as satisfy `P`. -/
def journal (P : Entry → Prop) : Upkeep (List Entry) where
  holds entries := ∀ e ∈ entries, P e
  changes := List.IsPrefix
  refl := List.prefix_refl
  trans := List.IsPrefix.trans

section Journal

variable {P : Entry → Prop}

theorem comes_append {added : List Entry} (h : ∀ e ∈ added, P e) :
    (journal P).Comes (modify (· ++ added) : Logged Unit) (.ok ()) := by
  apply Upkeep.comes_modify
  · intro entries hentries
    exact List.forall_mem_append.2 ⟨hentries, h⟩
  · intro entries
    exact List.prefix_append entries added

variable (hown : ∀ e : Entry, e.level ≠ .error → P e)

include hown

theorem comes_note {level : LogLevel} (hlevel : level ≠ .error) (source text : String) :
    (journal P).Comes (note level source text) (.ok ()) :=
  comes_append (List.forall_mem_singleton.2 (hown _ hlevel))

theorem comes_checked (expression : String) :
    (journal P).Comes (checked expression)
      ((validate expression).mapError Rejection.message) := by
  apply Upkeep.comes_bind_of_ok (comes_note hown (by decide) _ _)
  cases validate expression with
  | error reason =>
    apply Upkeep.comes_bind_of_ok (comes_note hown (by decide) _ _)
    exact Upkeep.comes_throw reason.message
  | ok => exact comes_note hown (by decide) _ _

omit hown in
theorem comes_worked_bind {w : Surroundings} {settings : Settings}
    (hworking : ∀ e ∈ w.working settings, P e) (x : Except Fault α) {next : α → Logged String}
    {text : α → String} (hnext : ∀ a, (journal P).Comes (next a) (.ok (text a))) :
    (journal P).Comes (worked w settings x >>= next)
      ((x.map text).mapError (failureMessage settings.expression)) := by
  have hworked : (journal P).Comes (worked w settings x)
      (x.mapError (failureMessage settings.expression)) := by
    apply Upkeep.comes_bind_of_ok (comes_append hworking)
    cases x with
    | error fault => exact Upkeep.comes_throw _
    | ok a => exact Upkeep.comes_pure a
  have hmap : (x.map text).mapError (failureMessage settings.expression) =
      x.mapError (failureMessage settings.expression) >>= fun a => .ok (text a) := by
    cases x <;> rfl
  rw [hmap]
  exact Upkeep.comes_bind hworked fun a _ => hnext a

theorem comes_session {w : Surroundings} {settings : Settings}
    (hworking : ∀ e ∈ w.working settings, P e) :
    (journal P).Comes (session w settings) (result settings) := by
  apply Upkeep.comes_bind (comes_checked hown settings.expression)
  intro _ _
  apply Upkeep.comes_bind_of_ok (comes_note hown (by decide) _ _)
  unfold report
  cases settings.showTrees with
  | true => exact comes_worked_bind hworking _ fun ts => Upkeep.comes_pure _
  | false =>
    apply comes_worked_bind hworking
    intro xs
    cases xs with
    | nil => exact Upkeep.comes_bind_of_ok (comes_note hown (by decide) _ _) (Upkeep.comes_pure _)
    | cons x xs => exact Upkeep.comes_pure _

end Journal

theorem outcome_toAnswer (w : Surroundings) (settings : Settings) :
    (outcome w settings).toAnswer = answer settings := by
  -- Whatever the entries are, they make no difference.
  have hcomes : (journal fun _ => True).Comes (session w settings) (result settings) :=
    comes_session (fun _ _ => trivial) fun _ _ => trivial
  obtain ⟨entries, hrun, -, -⟩ := hcomes [] (List.forall_mem_nil _)
  rw [outcome, hrun]
  rfl

theorem Surroundings.logText_eq_empty {w : Surroundings} {level : LogLevel} {entries : List Entry}
    (h : ∀ e ∈ entries, w.write level e = "") : w.logText level entries = "" := by
  induction entries with
  | nil => rfl
  | cons e entries ih =>
    rw [List.forall_mem_cons] at h
    rw [logText, List.map_cons, String.join_cons, h.1, String.empty_append]
    exact ih h.2

theorem Surroundings.keepsToLevel_lines (stamp : String) : (lines stamp).KeepsToLevel :=
  fun _ _ h => if_neg (Nat.not_le.2 h)

theorem log_outcome_eq_empty {w : Surroundings} {settings : Settings}
    (hown : ∀ e : Entry, e.level ≠ .error → w.write settings.chosenLevel e = "")
    (hworking : ∀ e ∈ w.working settings, w.write settings.chosenLevel e = "") :
    (outcome w settings).log = "" := by
  obtain ⟨entries, hrun, hentries, -⟩ := comes_session hown hworking [] (List.forall_mem_nil _)
  rw [outcome, hrun]
  exact Surroundings.logText_eq_empty hentries

theorem log_outcome_eq_empty_of_quiet {w : Surroundings} {settings : Settings}
    (h : w.QuietAt settings.chosenLevel) : (outcome w settings).log = "" :=
  log_outcome_eq_empty (fun e _ => h e) fun e _ => h e

theorem log_outcome_eq_empty_of_level_error {w : Surroundings} {settings : Settings}
    (hlevel : settings.chosenLevel = .error) (hw : w.KeepsToLevel)
    (hworking : ∀ e ∈ w.working settings, e.level ≠ .error) : (outcome w settings).log = "" := by
  have hdropped : ∀ e : Entry, e.level ≠ .error → w.write settings.chosenLevel e = "" := by
    intro e he
    apply hw
    rw [hlevel]
    exact LogLevel.rank_pos he
  exact log_outcome_eq_empty hdropped fun e hmem => hdropped e (hworking e hmem)

end Bracketing.CommandLine
