import Bracketing.Proofs.CommandLine.Reading
import Bracketing.Proofs.CommandLine.Session
import Bracketing.Proofs.FlatLaws

namespace Bracketing.CommandLine

def plainAnswer (expression : String) : Answer :=
  match validValues expression with
  | .ok values => ⟨0, valuesText values ++ "\n", ""⟩
  | .error (.rejected reason) => ⟨1, "", "Error: " ++ reason.message ++ "\n"⟩
  | .error (.faulty fault) =>
    ⟨1, "", "Error: Failed to evaluate " ++ expression ++ ": " ++ fault.message ++ "\n"⟩

theorem answer_eq_plainAnswer {settings : Settings} (h : settings.showTrees = false) :
    answer settings = plainAnswer settings.expression := by
  unfold answer result plainAnswer validValues
  cases hvalid : validate settings.expression with
  | error reason => rfl
  | ok =>
    have hreport : report settings =
        (values settings.expression).map fun xs => valuesText xs ++ "\n" := by
      simp only [report, h, Settings.chosenStrategy, Strategy.values_eq_of_validate hvalid]
      rfl
    rw [hreport]
    cases values settings.expression with
    | error fault => rfl
    | ok xs => rfl

section Accepted

variable {w : Surroundings} {arguments : List String} {settings : Settings}
  (h : read arguments = .ok (.run settings))

include h

theorem runIn_of_read : runIn w arguments = outcome w settings := by
  rw [runIn, h]

theorem toAnswer_runIn_of_read : (runIn w arguments).toAnswer = answer settings := by
  rw [runIn_of_read h, outcome_toAnswer]

theorem toAnswer_runIn_of_plain (hplain : asksForTrees arguments = false) :
    (runIn w arguments).toAnswer = plainAnswer (joinedExpression arguments) := by
  obtain ⟨hexpression, hshow⟩ := eq_of_read h
  rw [toAnswer_runIn_of_read h, answer_eq_plainAnswer (hshow.trans hplain), hexpression]

theorem errors_runIn_of_log_outcome (hlog : (outcome w settings).log = "") :
    (runIn w arguments).errors = (answer settings).stderr := by
  rw [Outcome.errors, toAnswer_runIn_of_read h, runIn_of_read h, hlog, String.empty_append]

theorem errors_runIn_of_quiet (hquiet : w.QuietAt settings.chosenLevel) :
    (runIn w arguments).errors = (answer settings).stderr :=
  errors_runIn_of_log_outcome h (log_outcome_eq_empty_of_quiet hquiet)

/-- No entry of the program's own is an error, so at that level only the answer is written. -/
theorem errors_runIn_of_level_error (hlevel : settings.chosenLevel = .error) (hw : w.KeepsToLevel)
    (hworking : ∀ e ∈ w.working settings, e.level ≠ .error) :
    (runIn w arguments).errors = (answer settings).stderr :=
  errors_runIn_of_log_outcome h (log_outcome_eq_empty_of_level_error hlevel hw hworking)

end Accepted

theorem run_determined_by_joinedExpression {arguments : List String} {settings : Settings}
    (haccepted : read arguments = .ok (.run settings)) (hplain : asksForTrees arguments = false)
    (w : Surroundings) :
    (runIn w arguments).toAnswer = plainAnswer (joinedExpression arguments) ∧
      (w.QuietAt settings.chosenLevel →
        (runIn w arguments).errors = (plainAnswer (joinedExpression arguments)).stderr) ∧
      (settings.chosenLevel = .error → w.KeepsToLevel →
        (∀ e ∈ w.working settings, e.level ≠ .error) →
          (runIn w arguments).errors = (plainAnswer (joinedExpression arguments)).stderr) ∧
      ∀ others settings' w', read others = .ok (.run settings') → asksForTrees others = false →
        joinedExpression others = joinedExpression arguments →
          (runIn w' others).toAnswer = (runIn w arguments).toAnswer := by
  have hrun : (runIn w arguments).toAnswer = _ := toAnswer_runIn_of_plain haccepted hplain
  refine ⟨hrun, fun hquiet => ?_, fun hlevel hw hworking => ?_, ?_⟩
  · rw [errors_runIn_of_quiet haccepted hquiet, ← hrun, toAnswer_runIn_of_read haccepted]
  · rw [errors_runIn_of_level_error haccepted hlevel hw hworking, ← hrun,
      toAnswer_runIn_of_read haccepted]
  · intro others settings' w' haccepted' hplain' hsame
    rw [toAnswer_runIn_of_plain haccepted' hplain', hsame, hrun]

def stamped : Surroundings := .lines "2025-01-01T00:00:00Z "

/-- Two command lines for 2/0, which has no value. One of them has the log say so. -/
theorem run_determined_by_joinedExpression_two_div_zero :
    read ["-sparallel", "2", "/0"] = .ok (.run ⟨["2", "/0"], some .parallel, none, false⟩) ∧
      asksForTrees ["-sparallel", "2", "/0"] = false ∧
      (runIn stamped ["-sparallel", "2", "/0"]).log =
        "[2025-01-01T00:00:00Z WARN  groupings::cli] No grouping of '2/0' has a result\n" ∧
      (runIn stamped ["-sparallel", "2", "/0"]).toAnswer = plainAnswer "2/0" ∧
      (runIn stamped ["-l", "error", "--", "2/0"]).errors = (plainAnswer "2/0").stderr ∧
      (runIn stamped ["-l", "error", "--", "2/0"]).toAnswer =
        (runIn stamped ["-sparallel", "2", "/0"]).toAnswer := by
  have haccepted : read ["-sparallel", "2", "/0"] =
      .ok (.run ⟨["2", "/0"], some .parallel, none, false⟩) := by decide +kernel
  have hplain : asksForTrees ["-sparallel", "2", "/0"] = false := by decide +kernel
  have haccepted' : read ["-l", "error", "--", "2/0"] =
      .ok (.run ⟨["2/0"], none, some .error, false⟩) := by decide +kernel
  have hplain' : asksForTrees ["-l", "error", "--", "2/0"] = false := by decide +kernel
  have hjoined : joinedExpression ["-sparallel", "2", "/0"] = "2/0" := by decide +kernel
  have hjoined' : joinedExpression ["-l", "error", "--", "2/0"] = "2/0" := by decide +kernel
  obtain ⟨hrun, -, -, hothers⟩ := run_determined_by_joinedExpression haccepted hplain stamped
  obtain ⟨-, -, herrors, -⟩ := run_determined_by_joinedExpression haccepted' hplain' stamped
  have hsame := hothers _ _ stamped haccepted' hplain' (hjoined'.trans hjoined.symm)
  have hlevel := herrors rfl (Surroundings.keepsToLevel_lines _) nofun
  rw [hjoined] at hrun
  rw [hjoined'] at hlevel
  exact ⟨haccepted, hplain, by decide +kernel, hrun, hlevel, hsame⟩

end Bracketing.CommandLine
