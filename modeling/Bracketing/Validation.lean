import Bracketing.Fault
import Bracketing.Operator
import Bracketing.Text.DecimalDigit

namespace Bracketing

def completes (digit : Char → Bool) (behindDigit : Bool) : List Char → Bool
  | [] => behindDigit
  | c :: cs =>
    if digit c then completes digit true cs
    else behindDigit && (Operator.ofSymbol? c).isSome && completes digit false cs

def isFlat (digit : Char → Bool) (cs : List Char) : Bool := completes digit false cs

def validate (text : String) : Except Rejection Unit :=
  if text.isEmpty then .error .empty
  else if isFlat Text.isDecimalDigit text.toList then .ok ()
  else .error (.malformed text)

def isValid (text : String) : Bool := (validate text).isOk

end Bracketing
