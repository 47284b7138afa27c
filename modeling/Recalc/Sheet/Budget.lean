import Recalc.Sheet.Basic

namespace Recalc.Budget

def entries : List (String × String) := [
  ("A1", "Revenue"), ("B1", "Cost"), ("C1", "Profit"),
  ("A3", "1000"), ("B3", "300"), ("C3", "=A3-B3"),
  ("A4", "2000"), ("B4", "1250"), ("C4", "=A4-B4"),
  ("A5", "=SUM(A3:A4)"), ("B5", "=SUM(B3:B4)"), ("C5", "=SUM(C3:C4)"),
  ("D3", "=A3-B$3"), ("C6", "=C7+1"), ("C7", "=C6+1"),
  ("F1", "Formula Tests"), ("E3", "10"), ("E4", "20"), ("E5", "30"), ("E6", "5"),
  ("F3", "SUM:"), ("G3", "=SUM(E3:E5)"),
  ("F4", "AVG:"), ("G4", "=AVERAGE(E3:E5)"),
  ("F5", "COUNT:"), ("G5", "=COUNT(E3:E6)"),
  ("F6", "MIN:"), ("G6", "=MIN(E3:E6)"),
  ("F7", "MAX:"), ("G7", "=MAX(E3:E6)"),
  ("F8", "IF:"), ("G8", "=IF(E3>15,\"High\",\"Low\")"),
  ("F9", "CONCAT:"), ("E9", "Hello"), ("E10", "World"), ("G9", "=CONCAT(E9,\" \",E10)")]

def cellOf (input : String) : Cell :=
  if input.toList.head? = some '=' then .ofFormula input
  else
    match Number.read? input.toList with
    | some x => .literal (.number x)
    | none => .literal (.text input)

/-- A small budget, a formula for every function, and two cells that read each other. -/
def sheet : Sheet :=
  entries.foldl
    (fun s (place, input) =>
      match Reference.ofText? place with
      | some r => s.set r.address (cellOf input)
      | none => s)
    (Sheet.empty "seed-sheet-1" "Budget Calculator" 20 10)

end Recalc.Budget
