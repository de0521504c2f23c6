import Bracketing.CommandLine.Arguments
import Bracketing.Fault

namespace Bracketing

def Rejection.notice : Rejection → String
  | .empty => "Expression is empty"
  | .malformed text => "Expression does not match the grammar: '" ++ text ++ "'"

namespace CommandLine

def LogLevel.rank : LogLevel → Nat
  | .error => 0
  | .warn => 1
  | .info => 2
  | .debug => 3
  | .trace => 4

def LogLevel.label : LogLevel → String
  | .error => "ERROR"
  | .warn => "WARN "
  | .info => "INFO "
  | .debug => "DEBUG"
  | .trace => "TRACE"

def Settings.chosenStrategy (s : Settings) : Strategy := s.strategy.getD default

def Settings.chosenLevel (s : Settings) : LogLevel := s.logLevel.getD .warn

structure Entry where
  level : LogLevel
  source : String
  text : String
  deriving DecidableEq

abbrev Logged := ExceptT String (StateM (List Entry))

def note (level : LogLevel) (source text : String) : Logged Unit :=
  modify (· ++ [⟨level, source, text⟩])

/-- What a run finds around it and leaves open: the words that explain its use, what the log writes
about an entry when set to a level, and the entries made while an expression is worked on, in
whatever order its threads come to make them. -/
structure Surroundings where
  help : String
  usage : Misuse → String
  write : LogLevel → Entry → String
  working : Settings → List Entry

namespace Surroundings

def lines (stamp : String) : Surroundings where
  help := ""
  usage _ := ""
  write level entry :=
    if entry.level.rank ≤ level.rank then
      "[" ++ stamp ++ entry.level.label ++ " " ++ entry.source ++ "] " ++ entry.text ++ "\n"
    else ""
  working _ := []

def silent : Surroundings := { lines "" with write := fun _ _ => "" }

def logText (w : Surroundings) (level : LogLevel) (entries : List Entry) : String :=
  String.join (entries.map (w.write level))

def QuietAt (w : Surroundings) (level : LogLevel) : Prop := ∀ e, w.write level e = ""

def KeepsToLevel (w : Surroundings) : Prop :=
  ∀ level e, level.rank < e.level.rank → w.write level e = ""

end Surroundings

end CommandLine

end Bracketing
