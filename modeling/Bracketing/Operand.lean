import Bracketing.Decimal.Basic
import Bracketing.Fault

namespace Bracketing.Operand

def isNumeral (cs : List Char) : Bool := !cs.isEmpty && cs.all Char.isDigit

def number (cs : List Char) : Nat := Nat.ofDigitChars 10 cs 0

def value (cs : List Char) : Float := Double.ofOrdinal (Decimal.nearest ⟨number cs, 0⟩)

def read (text : String) : Except Fault Float :=
  if isNumeral text.toList then .ok (value text.toList) else .error (.operand text)

theorem read_of_isNumeral {text : String} (h : isNumeral text.toList) :
    read text = .ok (value text.toList) := if_pos h

theorem read_of_not_isNumeral {text : String} (h : ¬ isNumeral text.toList) :
    read text = .error (.operand text) := if_neg h

end Bracketing.Operand
