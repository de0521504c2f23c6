import Bracketing.Strategy

/-!
The arguments of the command line, read from left to right. Each is checked as soon as it is
complete, so that of a misuse and a request for help or for the version the first one counts.
-/

namespace Bracketing.CommandLine

inductive LogLevel
  | error
  | warn
  | info
  | debug
  | trace
  deriving DecidableEq

def LogLevel.all : List LogLevel := [.error, .warn, .info, .debug, .trace]

def LogLevel.name : LogLevel → String
  | .error => "error"
  | .warn => "warn"
  | .info => "info"
  | .debug => "debug"
  | .trace => "trace"

def LogLevel.ofName? (name : String) : Option LogLevel := all.find? fun l => l.name == name

structure Settings where
  pieces : List String
  strategy : Option Strategy
  logLevel : Option LogLevel
  showTrees : Bool
  deriving DecidableEq

def Settings.initial : Settings := ⟨[], none, none, false⟩

def Settings.expression (s : Settings) : String := String.join s.pieces

inductive Setting
  | strategy
  | logLevel
  deriving DecidableEq

def Setting.name : Setting → String
  | .strategy => "--strategy"
  | .logLevel => "--log-level"

inductive Misuse
  | unknown (argument : String)
  | repeated (option : String)
  | valueMissing (option : String)
  | valueRefused (option value : String)
  | valueUnwanted (option value : String)
  | noExpression
  deriving DecidableEq

inductive Request
  | help
  | version
  | run (settings : Settings)
  deriving DecidableEq

/-- Where an argument leaves the reader: ready for any other, in need of a value, or done. -/
inductive Step
  | ready (settings : Settings)
  | needs (option : Setting) (settings : Settings)
  | done (request : Request)
  deriving DecidableEq

namespace Settings

def addPiece (s : Settings) (piece : String) : Settings := { s with pieces := s.pieces ++ [piece] }

def turnOnTrees (s : Settings) : Except Misuse Settings :=
  if s.showTrees then .error (.repeated "--groupings") else .ok { s with showTrees := true }

def set (s : Settings) : Setting → String → Except Misuse Settings
  | .strategy, value => match Strategy.ofName? value with
    | none => .error (.valueRefused Setting.strategy.name value)
    | some strategy =>
      if s.strategy.isSome then .error (.repeated Setting.strategy.name)
      else .ok { s with strategy := some strategy }
  | .logLevel, value => match LogLevel.ofName? value with
    | none => .error (.valueRefused Setting.logLevel.name value)
    | some level =>
      if s.logLevel.isSome then .error (.repeated Setting.logLevel.name)
      else .ok { s with logLevel := some level }

def finish (s : Settings) : Except Misuse Request :=
  if s.pieces.isEmpty then .error .noExpression else .ok (.run s)

end Settings

/-- Digits with at most one point behind the first of them, then at most one exponent letter with
more digits behind it. -/
def looksNumeric (cs : List Char) : Bool :=
  match cs.span fun c => c != 'e' && c != 'E' with
  | (mantissa, []) => digitsWithPoint mantissa
  | (mantissa, _ :: exponent) =>
    !mantissa.isEmpty && digitsWithPoint mantissa && !exponent.isEmpty && exponent.all Char.isDigit
where
  digitsWithPoint (cs : List Char) : Bool :=
    cs.head? != some '.' && cs.count '.' ≤ 1 && cs.all fun c => c.isDigit || c == '.'

def withValue (s : Settings) (option : Setting) : List Char → Except Misuse Step
  | [] => .ok (.needs option s)
  | '=' :: value => return .ready (← s.set option (String.ofList value))
  | value => return .ready (← s.set option (String.ofList value))

def readLetters (s : Settings) : List Char → Except Misuse Step
  | [] => .ok (.ready s)
  | 'g' :: cs => do readLetters (← s.turnOnTrees) cs
  | 's' :: cs => withValue s .strategy cs
  | 'l' :: cs => withValue s .logLevel cs
  | 'h' :: _ => .ok (.done .help)
  | 'V' :: _ => .ok (.done .version)
  | c :: _ => .error (.unknown (String.ofList ['-', c]))

def readName (s : Settings) (name : String) : Option String → Except Misuse Step
  | none => match name with
    | "strategy" => .ok (.needs .strategy s)
    | "log-level" => .ok (.needs .logLevel s)
    | "groupings" => return .ready (← s.turnOnTrees)
    | "help" => .ok (.done .help)
    | "version" => .ok (.done .version)
    | _ => .error (.unknown ("--" ++ name))
  | some value => match name with
    | "strategy" => return .ready (← s.set .strategy value)
    | "log-level" => return .ready (← s.set .logLevel value)
    | "groupings" | "help" | "version" => .error (.valueUnwanted ("--" ++ name) value)
    | _ => .error (.unknown ("--" ++ name))

/-- An argument in front of any `--`. A lone hyphen and a negative number are pieces. -/
def readArgument (s : Settings) (argument : String) : Except Misuse Step :=
  match argument.toList with
  | '-' :: '-' :: cs => match cs.span (· != '=') with
    | (name, []) => readName s (String.ofList name) none
    | (name, _ :: value) => readName s (String.ofList name) (some (String.ofList value))
  | '-' :: c :: cs =>
    if looksNumeric (c :: cs) then .ok (.ready (s.addPiece argument)) else readLetters s (c :: cs)
  | _ => .ok (.ready (s.addPiece argument))

def readFrom (s : Settings) : List String → Except Misuse Request
  | [] => s.finish
  | "--" :: pieces => (pieces.foldl Settings.addPiece s).finish
  | argument :: arguments => do
    match ← readArgument s argument with
    | .ready s => readFrom s arguments
    | .done request => return request
    | .needs option s => match arguments with
      | [] => .error (.valueMissing option.name)
      | value :: arguments => readFrom (← s.set option value) arguments

def read (arguments : List String) : Except Misuse Request := readFrom .initial arguments

end Bracketing.CommandLine
