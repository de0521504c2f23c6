import Bracketing.CommandLine.Log
import Bracketing.Expression

namespace Bracketing.CommandLine

structure Answer where
  exit : Nat
  stdout : String
  stderr : String
  deriving DecidableEq

/-- The log goes to the error stream too. It is kept apart from `stderr`, which is what the program
itself says there. -/
structure Outcome extends Answer where
  log : String
  deriving DecidableEq

namespace Answer

def success (text : String) : Answer := ⟨0, text, ""⟩

def failure (message : String) : Answer := ⟨1, "", "Error: " ++ message ++ "\n"⟩

def ofResult : Except String String → Answer
  | .ok text => success text
  | .error message => failure message

def unlogged (answer : Answer) : Outcome := { answer with log := "" }

end Answer

/-- All that is written to the error stream: the message comes last, when the log is complete. -/
def Outcome.errors (outcome : Outcome) : String := outcome.log ++ outcome.stderr

def versionText : String := "groupings 0.1.0\n"

def checked (expression : String) : Logged Unit := do
  note .debug "groupings::utils::validation" ("Validating expression: '" ++ expression ++ "'")
  match validate expression with
  | .error reason =>
    note .warn "groupings::utils::validation" reason.notice
    throw reason.message
  | .ok () => note .debug "groupings::utils::validation" "Expression validation successful"

def failureMessage (expression : String) (fault : Fault) : String :=
  "Failed to evaluate " ++ expression ++ ": " ++ fault.message

def worked (w : Surroundings) (settings : Settings) (result : Except Fault α) : Logged α := do
  modify (· ++ w.working settings)
  match result with
  | .error fault => throw (failureMessage settings.expression fault)
  | .ok a => return a

def session (w : Surroundings) (settings : Settings) : Logged String := do
  checked settings.expression
  note .info "groupings::cli" ("Evaluating every grouping of '" ++ settings.expression ++
    "' with the " ++ settings.chosenStrategy.name ++ " strategy")
  if settings.showTrees then
    let ts ← worked w settings (trees settings.expression)
    return String.join (ts.map Tree.line)
  else
    -- That there are no values is told here alone: a listing shows it.
    let xs ← worked w settings (settings.chosenStrategy.values settings.expression)
    if xs.isEmpty then
      note .warn "groupings::cli" ("No grouping of '" ++ settings.expression ++ "' has a result")
    return valuesText xs ++ "\n"

def outcome (w : Surroundings) (settings : Settings) : Outcome :=
  match (session w settings).run.run [] with
  | (result, entries) =>
    { Answer.ofResult result with log := w.logText settings.chosenLevel entries }

def runIn (w : Surroundings) (arguments : List String) : Outcome :=
  match read arguments with
  | .error misuse => Answer.unlogged ⟨2, "", w.usage misuse⟩
  | .ok .help => (Answer.success w.help).unlogged
  | .ok .version => (Answer.success versionText).unlogged
  | .ok (.run settings) => outcome w settings

def run : List String → Outcome := runIn .silent

end Bracketing.CommandLine
