import Bracketing.Evaluation.Memoized
import Bracketing.Evaluation.Parallel

namespace Bracketing

inductive Strategy
  | sequential
  | parallel
  | memoized
  deriving DecidableEq

namespace Strategy

instance : Inhabited Strategy := ⟨.sequential⟩

def all : List Strategy := [.sequential, .parallel, .memoized]

def name : Strategy → String
  | .sequential => "sequential"
  | .parallel => "parallel"
  | .memoized => "memoized"

def ofName? (name : String) : Option Strategy := all.find? fun s => s.name == name

@[simp] theorem ofName?_name (s : Strategy) : ofName? s.name = some s := by
  cases s <;> decide

def evaluate : Strategy → List Token → Except Fault (List Float)
  | .sequential => Evaluation.sequential
  | .parallel => Evaluation.parallel
  | .memoized => Evaluation.memoized

end Strategy

end Bracketing
