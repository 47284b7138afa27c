namespace Recalc

inductive Operator
  | add
  | sub
  | mul
  | div
  | pow
  | eq
  | ne
  | lt
  | le
  | gt
  | ge
deriving DecidableEq, Repr

namespace Operator

/-- How tightly an operator binds. All of them associate to the left. -/
def strength : Operator → Nat
  | eq | ne => 1
  | lt | le | gt | ge => 2
  | add | sub => 3
  | mul | div => 4
  | pow => 5

def chars : Operator → List Char
  | add => ['+']
  | sub => ['-']
  | mul => ['*']
  | div => ['/']
  | pow => ['^']
  | eq => ['=']
  | ne => ['<', '>']
  | lt => ['<']
  | le => ['<', '=']
  | gt => ['>']
  | ge => ['>', '=']

def symbol (op : Operator) : String := String.ofList op.chars

theorem strength_pos (op : Operator) : 0 < op.strength := by
  cases op <;> decide

end Operator

end Recalc
