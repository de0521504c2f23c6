import Bracketing.Fault

namespace Bracketing

inductive Operator
  | add
  | sub
  | mul
  | div
  deriving DecidableEq

namespace Operator

def all : List Operator := [.add, .sub, .mul, .div]

def symbol : Operator → Char
  | .add => '+'
  | .sub => '-'
  | .mul => '*'
  | .div => '/'

def ofSymbol? : Char → Option Operator
  | '+' => some .add
  | '-' => some .sub
  | '*' => some .mul
  | '/' => some .div
  | _ => none

@[simp] theorem ofSymbol?_symbol (op : Operator) : ofSymbol? op.symbol = some op := by
  cases op <;> rfl

theorem ofSymbol?_eq_some_iff {c : Char} {op : Operator} :
    ofSymbol? c = some op ↔ c = op.symbol := by
  constructor
  · intro h
    unfold ofSymbol? at h
    split at h <;> cases h <;> rfl
  · rintro rfl
    exact ofSymbol?_symbol op

theorem mem_all (op : Operator) : op ∈ all := by cases op <;> decide

def text (op : Operator) : String := String.singleton op.symbol

@[simp] theorem toList_text (op : Operator) : op.text.toList = [op.symbol] := by
  simp [text]

def read (text : String) : Except Fault Operator :=
  match text.toList with
  | [c] => match ofSymbol? c with
    | some op => .ok op
    | none => .error (.operator text)
  | _ => .error (.operator text)

@[simp] theorem read_text (op : Operator) : read op.text = .ok op := by
  simp [read]

def apply : Operator → Float → Float → Option Float
  | .add, l, r => some (l + r)
  | .sub, l, r => some (l - r)
  | .mul, l, r => some (l * r)
  | .div, l, r => if r == 0 then none else some (l / r)

def applyText (symbol : String) (l r : Float) : Except Fault (Option Float) :=
  return (← read symbol).apply l r

def combine (op : Operator) (ls rs : List Float) : List Float :=
  ls.flatMap fun l => rs.filterMap fun r => op.apply l r

@[simp] theorem combine_nil_left (op : Operator) (rs : List Float) : op.combine [] rs = [] := rfl

@[simp] theorem combine_nil_right (op : Operator) (ls : List Float) : op.combine ls [] = [] := by
  simp [combine]

theorem combine_append_left (op : Operator) (ls ms rs : List Float) :
    op.combine (ls ++ ms) rs = op.combine ls rs ++ op.combine ms rs := by
  simp [combine]

end Operator

end Bracketing
