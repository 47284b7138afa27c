import Recalc.Error
import Recalc.Formula.Operator
import Recalc.Value

namespace Recalc

inductive Builtin
  | sum
  | average
  | count
  | least
  | greatest
  | choice
  | concat
deriving DecidableEq, Repr

namespace Builtin

structure Entry where
  name : String
  builtin : Builtin
  description : String

def catalogue : List Entry := [
  ⟨"SUM", sum, "Sum of numeric values"⟩,
  ⟨"AVERAGE", average, "Average of numeric values (0 when there are none)"⟩,
  ⟨"AVG", average, "Alias for AVERAGE"⟩,
  ⟨"COUNT", count, "Count of non-empty values"⟩,
  ⟨"MIN", least, "Minimum numeric value (0 when there are none)"⟩,
  ⟨"MAX", greatest, "Maximum numeric value (0 when there are none)"⟩,
  ⟨"IF", choice, "IF(condition, when_true[, when_false])"⟩,
  ⟨"CONCAT", concat, "Join values as text, skipping empty cells"⟩]

/-- The function of this name, in capitals or small letters. -/
def lookup? (name : String) : Option Builtin :=
  (catalogue.find? (·.name == Text.upperAscii name)).map (·.builtin)

/-- Whether a range may be an argument. A choice takes single values only. -/
def acceptsRanges (f : Builtin) : Bool := f != choice

/-- The least and the greatest number of arguments, where a function limits it. -/
def argumentCount? : Builtin → Option (Nat × Nat)
  | choice => some (2, 3)
  | _ => none

/-- Refuse a call under `name` with a wrong number of arguments. -/
def checkArity (f : Builtin) (name : String) (given : Nat) : Except EvalError Unit :=
  match f.argumentCount? with
  | none => .ok ()
  | some (fewest, most) =>
    if fewest ≤ given ∧ given ≤ most then .ok () else .error (.arity name fewest most given)

def numbers (vs : List Value) : List Float := vs.filterMap Value.number?

/-- The last of the numbers that no other one comes before; zero if there are no numbers. -/
def extreme (before : Float → Float → Bool) : List Float → Float
  | [] => 0
  | x :: xs => xs.foldl (fun best y => if before best y then best else y) x

/-- The value of a call, from the values of its arguments. A sum starts from negative zero, so that
it has the sign of its terms if all of them are zero. -/
def apply : Builtin → List Value → Value
  | sum, vs => .number ((numbers vs).foldl (· + ·) (-0.0))
  | average, vs =>
    let xs := numbers vs
    .number (if xs.isEmpty then 0 else xs.foldl (· + ·) 0 / Float.ofNat xs.length)
  | count, vs => .number (Float.ofNat (vs.filter fun v => !v.isBlank).length)
  | least, vs => .number (extreme (fun x y => x < y) (numbers vs))
  | greatest, vs => .number (extreme (fun x y => y < x) (numbers vs))
  | choice, vs =>
    let condition := vs.headD .null
    let whenTrue := (vs.drop 1).headD .null
    let whenFalse := (vs.drop 2).headD (.bool false)
    if condition.isTrue then whenTrue else whenFalse
  | concat, vs => .text (String.join ((vs.filter fun v => !v.isNull).map Value.toText))

end Builtin

def Operator.apply (op : Operator) (x y : Value) : Except EvalError Value :=
  let a := x.toNumber
  let b := y.toNumber
  match op with
  | add => .ok (.number (a + b))
  | sub => .ok (.number (a - b))
  | mul => .ok (.number (a * b))
  | div => if b == 0 then .error .divisionByZero else .ok (.number (a / b))
  | pow => .ok (.number (a.pow b))
  | eq => .ok (.bool (x.same y))
  | ne => .ok (.bool !(x.same y))
  | lt => .ok (.bool (a < b))
  | le => .ok (.bool (a ≤ b))
  | gt => .ok (.bool (b < a))
  | ge => .ok (.bool (b ≤ a))

end Recalc
