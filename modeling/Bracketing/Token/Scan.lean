import Bracketing.Token

namespace Bracketing.Token

def glue (c : Char) : List Token → List Token
  | .operand text :: ts => .operand (String.singleton c ++ text) :: ts
  | ts => .operand (String.singleton c) :: ts

def scan : List Char → List Token
  | [] => []
  | c :: cs => match Operator.ofSymbol? c with
    | some op => .operator op :: scan cs
    | none => glue c (scan cs)

def ofText (text : String) : List Token := scan text.toList

def chars (ts : List Token) : List Char := ts.flatMap fun t => t.text.toList

theorem chars_glue (c : Char) (ts : List Token) : chars (glue c ts) = c :: chars ts := by
  fun_cases glue c ts <;> simp [chars, text]

@[simp] theorem chars_scan (cs : List Char) : chars (scan cs) = cs := by
  fun_induction scan cs with
  | case1 => rfl
  | case2 c cs op h ih =>
    rw [Operator.ofSymbol?_eq_some_iff] at h
    simp_all [chars, text]
  | case3 c cs h ih => rw [chars_glue, ih]

end Bracketing.Token
