import Recalc.Formula.Reader
import Recalc.Value

namespace Recalc

inductive Cell
  | literal (v : Value)
  /-- A formula as it was typed, and what was read from it; nothing if it cannot be read. -/
  | formula (source : String) (expr : Option Expr)
  | error (f : Failure)

namespace Cell

/-- The cell that holds this formula text. -/
def ofFormula (source : String) : Cell := formula source (Expr.read source).toOption

/-- The formula of a cell, where it has one that can be read. -/
def expr? : Cell → Option Expr
  | formula _ expr => expr
  | _ => none

/-- What a user would type to get this cell; for an error, what the cell shows. -/
def inputText : Cell → String
  | literal v => v.toText
  | formula source _ => if source.toList.head? = some '=' then source else "=" ++ source
  | error f => f.code.marker

end Cell

end Recalc
