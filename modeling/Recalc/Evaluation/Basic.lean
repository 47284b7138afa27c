import Recalc.Evaluation.Eval
import Recalc.Sheet.Basic

namespace Recalc

/-- What a cell or a formula shows, with the steps that led there if they were asked for. -/
structure Evaluation where
  outcome : Except Failure Value
  explain : Option (List Step)

namespace Evaluation

def of (outcome : Except Failure Value) : Evaluation := ⟨outcome, none⟩

/-- The text of the outcome in an exported sheet. -/
def exported (e : Evaluation) : String :=
  match e.outcome with
  | .ok v => v.toText
  | .error f => f.code.marker

/-- The text of the outcome in a grid. -/
def display (e : Evaluation) : String :=
  match e.outcome with
  | .ok (.number x) => Number.display x
  | .ok (.bool b) => if b then "TRUE" else "FALSE"
  | .ok v => v.toText
  | .error f => f.code.marker

end Evaluation

namespace Sheet

theorem mem_cells_of_get? {s : Sheet} {a : Address} {c : Cell} (h : s.get? a = some c) :
    a ∈ s.cells :=
  Std.ExtTreeMap.mem_iff_isSome_getElem?.mpr (by simp [show s.cells[a]? = some c from h])

/-- The value of a cell that a formula refers to, while the `active` cells are being evaluated. -/
def readCell (s : Sheet) (traced : Bool) (active : AddressSet) (a : Address) : Run Value :=
  if !s.contains a then .fail (.outOfBounds a)
  else if _ha : a ∈ active then .fail (.circular a)
  else Run.noted traced (.ref ⟨a, ⟨false, false⟩⟩) <|
    match _hc : s.get? a with
    | none => pure .null
    | some (.literal v) => pure v
    | some (.error f) => .fail (.propagated a f)
    | some (.formula source none) => .fail (.unparsed source)
    | some (.formula _ (some e)) => e.eval ⟨s.readCell traced (active.insert a), s.contains, traced⟩
termination_by (AddressMap.outside s.cells active).length
decreasing_by exact AddressMap.outside_insert_lt (mem_cells_of_get? _hc) _ha

/-- What a formula sees while the `active` cells are being evaluated. -/
def surroundings (s : Sheet) (traced : Bool) (active : AddressSet) : Surroundings :=
  ⟨s.readCell traced active, s.contains, traced⟩

/-- Evaluate a formula that `active` cells wait for. -/
def evaluateExpr (s : Sheet) (policy : Policy) (traced : Bool) (active : AddressSet) (e : Expr) :
    Evaluation :=
  let run := e.eval (s.surroundings traced active)
  ⟨run.result.mapError (·.failure policy), if traced then some run.steps else none⟩

def evaluateCell (s : Sheet) (policy : Policy) (a : Address) (traced : Bool) : Evaluation :=
  if !s.contains a then .of (.error ((EvalError.outOfBounds a).failure policy))
  else
    match s.get? a with
    | none => .of (.ok .null)
    | some (.literal v) => .of (.ok v)
    | some (.error f) => .of (.error f)
    | some (.formula source none) => .of (.error ((EvalError.unparsed source).failure policy))
    | some (.formula _ (some e)) => s.evaluateExpr policy traced (Std.ExtTreeSet.ofList [a]) e

/-- Evaluate a formula that stands in no cell. -/
def evaluateFormula (s : Sheet) (policy : Policy) (source : String) (traced : Bool) : Evaluation :=
  match Expr.read source with
  | .error e => .of (.error e.failure)
  | .ok e => s.evaluateExpr policy traced ∅ e

end Sheet

end Recalc
