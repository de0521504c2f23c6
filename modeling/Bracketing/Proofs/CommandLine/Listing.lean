import Bracketing.Proofs.CommandLine.Answers
import Bracketing.Proofs.CountLaws
import Bracketing.Proofs.FaultLaws
import Bracketing.Proofs.SequentialLaws
import Bracketing.Proofs.TableLaws

namespace Bracketing

theorem values_eq_values_trees (text : String) :
    values text = (trees text).map (List.filterMap Tree.value) :=
  Evaluation.sequential_eq_values_all (Token.ofText text)

theorem length_trees_of_validate {text : String} (h : validate text = .ok ()) {ts : List Tree}
    (hts : trees text = .ok ts) : ts.length = catalan (operatorCount text) := by
  have hlen := length_ofText_of_validate h
  have hhalf : (2 * operatorCount text + 1) / 2 = operatorCount text := by omega
  rw [Tree.length_all hts (by omega), hlen, hhalf]

/-- A listing of the trees of an expression, held against what is printed about its values alone. -/
structure Lists (expression listing values : String) (rows : List (String × String)) : Prop where
  isTable : IsTable listing rows
  trees_eq : ∃ ts, trees expression = .ok ts ∧ ts.map Tree.row = rows
  length_eq : rows.length = catalan (operatorCount expression)
  nodup : (rows.map Prod.fst).Nodup
  values_eq :
    values = "[" ++ ", ".intercalate ((rows.map Prod.snd).filter (· != "no result")) ++ "]" ++ "\n"

theorem lists_of_trees {expression : String} {ts : List Tree} (h : validate expression = .ok ())
    (hts : trees expression = .ok ts) :
    Lists expression (String.join (ts.map Tree.line)) (valuesText (ts.filterMap Tree.value) ++ "\n")
      (ts.map Tree.row) where
  isTable := Tree.isTable_lines ts
  trees_eq := ⟨ts, hts, rfl⟩
  length_eq := by rw [List.length_map, length_trees_of_validate h hts]
  nodup := by
    rw [List.map_map]
    exact Tree.nodup_map_text_all hts
  values_eq := by
    rw [Tree.filter_map_row]
    rfl

namespace CommandLine

def treesText (showTrees : Bool) (ts : List Tree) : String :=
  if showTrees then String.join (ts.map Tree.line)
  else valuesText (ts.filterMap Tree.value) ++ "\n"

theorem report_eq_treesText {settings : Settings} (h : validate settings.expression = .ok ()) :
    report settings = (trees settings.expression).map (treesText settings.showTrees) := by
  cases hshow : settings.showTrees with
  | true =>
    simp only [report, hshow]
    rfl
  | false =>
    simp only [report, hshow, Strategy.values_eq_of_validate h, values_eq_values_trees]
    cases trees settings.expression <;> rfl

theorem answer_of_invalid {settings : Settings} {reason : Rejection}
    (h : validate settings.expression = .error reason) :
    answer settings = .failure reason.message := by
  rw [answer, result, h]
  rfl

theorem answer_of_fault {settings : Settings} {fault : Fault}
    (h : validate settings.expression = .ok ())
    (hfault : trees settings.expression = .error fault) :
    answer settings = .failure (failureMessage settings.expression fault) := by
  rw [answer, result, h, report_eq_treesText h, hfault]
  rfl

theorem answer_of_trees {settings : Settings} {ts : List Tree}
    (h : validate settings.expression = .ok ()) (hts : trees settings.expression = .ok ts) :
    answer settings = .success (treesText settings.showTrees ts) := by
  rw [answer, result, h, report_eq_treesText h, hts]
  rfl

theorem answer_cases (settings : Settings) :
    (∃ message,
      answer settings.withTrees = .failure message ∧ answer settings = .failure message) ∨
    ∃ ts, validate settings.expression = .ok () ∧ trees settings.expression = .ok ts ∧
      answer settings.withTrees = .success (treesText true ts) ∧
      answer settings = .success (treesText settings.showTrees ts) := by
  -- The expression of `settings.withTrees` is that of `settings` by definition.
  cases hvalid : validate settings.expression with
  | error reason =>
    have hinvalid : answer settings.withTrees = .failure reason.message := answer_of_invalid hvalid
    exact .inl ⟨_, hinvalid, answer_of_invalid hvalid⟩
  | ok =>
    cases htrees : trees settings.expression with
    | error fault =>
      have hfault : answer settings.withTrees =
          .failure (failureMessage settings.expression fault) := answer_of_fault hvalid htrees
      exact .inl ⟨_, hfault, answer_of_fault hvalid htrees⟩
    | ok ts =>
      have hlisting : answer settings.withTrees = .success (treesText true ts) :=
        answer_of_trees hvalid htrees
      exact .inr ⟨ts, rfl, rfl, hlisting, answer_of_trees hvalid htrees⟩

theorem answer_withTrees {settings : Settings} (hshow : settings.showTrees = false) :
    (answer settings.withTrees).exit = (answer settings).exit ∧
      (answer settings.withTrees).stderr = (answer settings).stderr ∧
      ((answer settings).exit ≠ 0 →
        (answer settings.withTrees).stdout = "" ∧ (answer settings).stdout = "") ∧
      ((answer settings).exit = 0 → ∃ rows,
        Lists settings.expression (answer settings.withTrees).stdout (answer settings).stdout rows ∧
          ∀ rows', IsTable (answer settings.withTrees).stdout rows' → rows' = rows) := by
  obtain ⟨message, hfailed, hfailed'⟩ | ⟨ts, hvalid, htrees, hanswered, hanswered'⟩ :=
    answer_cases settings
  · rw [hfailed, hfailed']
    exact ⟨rfl, rfl, fun _ => ⟨rfl, rfl⟩, fun hexit => absurd hexit Nat.one_ne_zero⟩
  · rw [hanswered, hanswered', hshow]
    have hlists := lists_of_trees hvalid htrees
    refine ⟨rfl, rfl, fun hexit => absurd rfl hexit, fun _ => ⟨ts.map Tree.row, hlists, ?_⟩⟩
    exact fun rows' hrows' => hrows'.unique hlists.isTable

theorem run_trees_cons_lists_values {arguments : List String} {settings : Settings}
    (haccepted : read arguments = .ok (.run settings)) (hplain : asksForTrees arguments = false)
    (w w' : Surroundings) :
    (runIn w ("-g" :: arguments)).exit = (runIn w' arguments).exit ∧
      (runIn w ("-g" :: arguments)).stderr = (runIn w' arguments).stderr ∧
      (w.QuietAt settings.chosenLevel → w'.QuietAt settings.chosenLevel →
        (runIn w ("-g" :: arguments)).errors = (runIn w' arguments).errors) ∧
      ((runIn w' arguments).exit ≠ 0 →
        (runIn w ("-g" :: arguments)).stdout = "" ∧ (runIn w' arguments).stdout = "") ∧
      ((runIn w' arguments).exit = 0 → ∃ rows,
        Lists (joinedExpression arguments) (runIn w ("-g" :: arguments)).stdout
            (runIn w' arguments).stdout rows ∧
          ∀ rows', IsTable (runIn w ("-g" :: arguments)).stdout rows' → rows' = rows) := by
  obtain ⟨hexpression, hshow⟩ := eq_of_read haccepted
  have haccepted' := read_trees_cons haccepted hplain
  obtain ⟨hexit, hstderr, hfailure, hsuccess⟩ := answer_withTrees (hshow.trans hplain)
  rw [← hexpression, toAnswer_runIn_of_read haccepted', toAnswer_runIn_of_read haccepted]
  refine ⟨hexit, hstderr, fun hquiet hquiet' => ?_, hfailure, hsuccess⟩
  rw [errors_runIn_of_quiet haccepted' hquiet, errors_runIn_of_quiet haccepted hquiet', hstderr]

theorem run_trees_cons_lists_values_one_sub_two_div_zero :
    read ["1-2/0"] = .ok (.run ⟨["1-2/0"], none, none, false⟩) ∧
      asksForTrees ["1-2/0"] = false ∧
      (runIn stamped ["1-2/0"]).log =
        "[2025-01-01T00:00:00Z WARN  groupings::cli] No grouping of '1-2/0' has a result\n" ∧
      (runIn stamped ["-g", "1-2/0"]).log = "" ∧
      (runIn stamped ["-g", "1-2/0"]).stderr = (runIn stamped ["1-2/0"]).stderr ∧
      (runIn stamped ["1-2/0"]).exit = 0 ∧ (runIn stamped ["-g", "1-2/0"]).exit = 0 ∧
      ∃ rows, rows.length = 2 ∧
        Lists "1-2/0" (runIn stamped ["-g", "1-2/0"]).stdout (runIn stamped ["1-2/0"]).stdout
          rows := by
  have haccepted : read ["1-2/0"] = .ok (.run ⟨["1-2/0"], none, none, false⟩) := by
    decide +kernel
  have hplain : asksForTrees ["1-2/0"] = false := by decide +kernel
  have hsuccess : (runIn stamped ["1-2/0"]).exit = 0 := by decide +kernel
  obtain ⟨hexit, hstderr, -, -, hlists⟩ :=
    run_trees_cons_lists_values haccepted hplain stamped stamped
  obtain ⟨rows, hrows, -⟩ := hlists hsuccess
  have hjoined : joinedExpression ["1-2/0"] = "1-2/0" := by decide +kernel
  have hcount : catalan (operatorCount "1-2/0") = 2 := catalan_two
  rw [hjoined] at hrows
  exact ⟨haccepted, hplain, by decide +kernel, by decide +kernel, hstderr, hsuccess,
    hexit.trans hsuccess, rows, hrows.length_eq.trans hcount, hrows⟩

end CommandLine

end Bracketing
