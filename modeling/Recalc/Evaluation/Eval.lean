import Recalc.Address.Rect
import Recalc.Evaluation.Run

namespace Recalc

/-- What a formula sees of the sheet that it is evaluated on. -/
structure Surroundings where
  read : Address → Run Value
  contains : Address → Bool
  traced : Bool

namespace Surroundings

/-- Read the cells of a rectangle row by row, if all of it lies inside the sheet. -/
def readRect (env : Surroundings) (r : Rect) : Run (List Value) :=
  if env.contains r.bottomRight then do
    let rows ← Run.forEach
      (fun row => Run.forEach (fun col => env.read ⟨row, col⟩) r.left r.width) r.top r.height
    return rows.flatten
  else .fail (.outOfBounds r.bottomRight)

end Surroundings

namespace Expr

mutual

/-- Evaluate a formula. Operands and arguments are evaluated from left to right, and the first
error ends the evaluation. -/
def eval (env : Surroundings) : Expr → Run Value
  | number x => pure (.number x)
  | text s => pure (.text s)
  | bool b => pure (.bool b)
  | ref r => env.read r.address
  | range first last => .fail (.rangeOutsideFunction (range first last).toText)
  | call f args =>
    Run.noted env.traced (call f args) <|
      match Builtin.lookup? f with
      | none => .fail (.unknownFunction f)
      | some builtin => do
        Run.ofExcept (builtin.checkArity f args.length)
        let values ← evalArguments env builtin.acceptsRanges args
        return builtin.apply values
  | binary op left right => do
    let x ← eval env left
    let y ← eval env right
    Run.noted env.traced (binary op left right) (Run.ofExcept (op.apply x y))
  | neg operand => do
    let x ← eval env operand
    Run.noted env.traced (neg operand) (pure (.number (-x.toNumber)))

/-- The values of arguments. Where ranges are accepted, one gives the values of its cells. -/
def evalArguments (env : Surroundings) (ranges : Bool) : List Expr → Run (List Value)
  | [] => pure []
  | e :: es => do
    let here ← match e, ranges with
      | range first last, true => env.readRect (Rect.spanning first.address last.address)
      | e, _ => do
        let v ← eval env e
        pure [v]
    let later ← evalArguments env ranges es
    return here ++ later

end

end Expr

end Recalc
