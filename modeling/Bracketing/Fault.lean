namespace Bracketing

inductive Fault
  | operator (text : String)
  | operand (text : String)
  deriving DecidableEq

inductive Rejection
  | empty
  | malformed (text : String)
  deriving DecidableEq

inductive Failure
  | rejected (reason : Rejection)
  | faulty (fault : Fault)
  deriving DecidableEq

def Fault.message : Fault → String
  | .operator text => "Invalid operator: " ++ text
  | .operand text => "Operand is not a base-10 integer: " ++ text

def Rejection.message : Rejection → String
  | .empty => "Expression cannot be empty"
  | .malformed text => "Invalid expression " ++ text

def Failure.message : Failure → String
  | .rejected reason => "Validation error: " ++ reason.message
  | .faulty fault => "Evaluation error: " ++ fault.message

end Bracketing
