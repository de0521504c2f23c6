import Bracketing.Strategy
import Bracketing.Token.Scan
import Bracketing.Tree.All
import Bracketing.Tree.Text
import Bracketing.Validation

namespace Bracketing

def Strategy.values (s : Strategy) (text : String) : Except Fault (List Float) :=
  s.evaluate (Token.ofText text)

def values (text : String) : Except Fault (List Float) := (default : Strategy).values text

def validValues (text : String) : Except Failure (List Float) := do
  (validate text).mapError .rejected
  (values text).mapError .faulty

def trees (text : String) : Except Fault (List Tree) := Tree.all (Token.ofText text)

def valuesText (xs : List Float) : String :=
  "[" ++ ", ".intercalate (xs.map Double.text) ++ "]"

end Bracketing
