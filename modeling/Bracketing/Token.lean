import Bracketing.Operand
import Bracketing.Operator

namespace Bracketing

inductive Token
  | operand (text : String)
  | operator (op : Operator)
  deriving DecidableEq

namespace Token

def isOperator : Token → Bool
  | .operand _ => false
  | .operator _ => true

def text : Token → String
  | .operand text => text
  | .operator op => op.text

def toValue : Token → Except Fault Float
  | .operand text => Operand.read text
  | .operator op => .error (.operand op.text)

def toOperator : Token → Except Fault Operator
  | .operand text => .error (.operator text)
  | .operator op => .ok op

end Token

end Bracketing
