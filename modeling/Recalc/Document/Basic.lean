import Recalc.Document.Error
import Recalc.Evaluation.Basic
import Recalc.Graph.Order

namespace Recalc

/-- A sheet that is being edited, with what its formulas read. -/
structure Document where
  sheet : Sheet
  graph : Graph
  policy : Policy

/-- What an edit changed: the edited cell and all that read it, evaluated anew. -/
structure Recalculation where
  cell : Address
  /-- The formula would have closed a loop, and a failure was stored in its place. -/
  rejected : Bool
  results : List (Address × Evaluation)

namespace Document

def load (s : Sheet) (policy : Policy) : Document := ⟨s, Graph.ofSheet s, policy⟩

def empty (id name : String) (rows cols : Nat) : Document :=
  load (Sheet.empty id name rows cols) Policy.standard

def evaluateCell (d : Document) (a : Address) (traced : Bool) : Evaluation :=
  d.sheet.evaluateCell d.policy a traced

def evaluateFormula (d : Document) (source : String) (traced : Bool) : Evaluation :=
  d.sheet.evaluateFormula d.policy source traced

/-- Every occupied cell with its evaluation, row by row. -/
def evaluateAll (d : Document) : List (Address × Evaluation) :=
  d.sheet.occupied.map fun entry => (entry.1, d.evaluateCell entry.1 false)

def display (d : Document) (a : Address) : String := (d.evaluateCell a false).display

/-- What a cell shows that could not be put in order. -/
def stalledEvaluation (a : Address) : Evaluation :=
  .of (.error ⟨.circular, (EvalError.circular a).message⟩)

/-- Evaluate a cell and all that read it, directly or through others, each behind what it reads. -/
def recalculate (d : Document) (a : Address) (rejected : Bool) : Recalculation :=
  let order := d.graph.evaluationOrder ((d.graph.closure a).toList ++ [a])
  let evaluated := order.order.map fun b => (b, d.evaluateCell b false)
  let stalled := order.stalled.map fun b => (b, stalledEvaluation b)
  ⟨a, rejected, evaluated ++ stalled⟩

/-- The failure stored at `a` when reading `read` would close a loop. -/
def loopFailure (a read : Address) : Failure :=
  ⟨.circular, "Circular reference detected: " ++ a.text ++ " -> " ++ read.text⟩

/-- The document with `c` at a place inside the sheet, and whether `c` was rejected. A formula that
cannot be read leaves the links alone. One that would close a loop is rejected. -/
def store (d : Document) (a : Address) (c : Cell) : Document × Bool :=
  match c with
  | .formula _ none => ({ d with sheet := d.sheet.set a c }, false)
  | _ =>
    let graph := d.graph.removeOutgoing a
    let reads := d.sheet.dependencies c
    match reads.find? (graph.closesLoop a) with
    | some read =>
      ({ d with sheet := d.sheet.set a (.error (loopFailure a read)), graph := graph }, true)
    | none =>
      ({ d with sheet := d.sheet.set a c, graph := reads.foldl (fun g read => g.add a read) graph },
        false)

def checkBounds (d : Document) (a : Address) : Except EditError Unit :=
  if d.sheet.contains a then .ok ()
  else .error (.outOfBounds a d.sheet.rows d.sheet.cols)

/-- Store a cell and evaluate what that changes. -/
def update (d : Document) (a : Address) (c : Cell) :
    Except EditError (Document × Recalculation) := do
  d.checkBounds a
  let (d, rejected) := d.store a c
  return (d, d.recalculate a rejected)

/-- Empty a cell and evaluate what that changes. -/
def clear (d : Document) (a : Address) : Except EditError (Document × Recalculation) := do
  d.checkBounds a
  let d := { d with sheet := d.sheet.remove a, graph := d.graph.removeOutgoing a }
  return (d, d.recalculate a false)

/-- Replace the sheet and find its links anew. -/
def withSheet (d : Document) (s : Sheet) : Document := load s d.policy

/-- Append rows; formulas may read cells of the new rows now. -/
def extendRows (d : Document) (count : Nat) : Document := d.withSheet (d.sheet.extendRows count)

def extendCols (d : Document) (count : Nat) : Document := d.withSheet (d.sheet.extendCols count)

end Document

end Recalc
