import Recalc.Csv.Line
import Recalc.Document.Basic

namespace Recalc

namespace Csv

/-- A zero and then another digit: such a field is kept as text. -/
def hasLeadingZero : List Char → Bool
  | '0' :: c :: _ => c.isDigit
  | _ => false

/-- The cell that a field stands for: a formula, a number, a truth value, or else text. A field with
blanks around it is text. -/
def cellOf (field : String) : Cell :=
  let cs := field.toList
  if cs ≠ Text.stripBlanks cs then .literal (.text field)
  else if cs.head? = some '=' then .ofFormula field
  else
    match if hasLeadingZero cs then none else Number.read? cs with
    | some x => .literal (.number x)
    | none =>
      let word := Text.lowerAscii field
      if word = Value.boolText true then .literal (.bool true)
      else if word = Value.boolText false then .literal (.bool false)
      else .literal (.text field)

/-- The cells of a row from its fields; an empty field is no cell. -/
def rowCells (row : Nat) (col : Nat) : List String → List (Address × Cell)
  | [] => []
  | field :: rest =>
    if field.isEmpty then rowCells row (col + 1) rest
    else (⟨row, col⟩, cellOf field) :: rowCells row (col + 1) rest

/-- The cells of some lines, the first of which is line `number` and gives row `row`. -/
def linesCells (col : Nat) (row : Nat) (number : Nat) :
    List (List Char) → Except EditError (List (Address × Cell))
  | [] => .ok []
  | line :: rest =>
    match fields? line with
    | none => .error (.csv number)
    | some fields =>
      (linesCells col (row + 1) (number + 1) rest).map (rowCells row col fields ++ ·)

/-- The cells that a text describes, its first field being the cell in `row` and `col`. -/
def cells (text : String) (col row : Nat) : Except EditError (List (Address × Cell)) :=
  linesCells col row 1 (lines text)

/-- The number of rows that hold all these cells. -/
def rowsNeeded (cs : List (Address × Cell)) : Nat :=
  cs.foldl (fun n entry => max n (entry.1.row + 1)) 0

def colsNeeded (cs : List (Address × Cell)) : Nat :=
  cs.foldl (fun n entry => max n (entry.1.col + 1)) 0

end Csv

/-- The sheet that a text describes, of at least the given size. -/
def Sheet.ofCsv (text id name : String) (minRows minCols : Nat) : Except EditError Sheet := do
  let cs ← Csv.cells text 0 0
  let rows := max (Csv.rowsNeeded cs) minRows
  let cols := max (Csv.colsNeeded cs) minCols
  return cs.foldl (fun s (a, c) => s.set a c) (Sheet.empty id name rows cols)

def Document.storeAll (d : Document) : List (Address × Cell) → Except EditError Document
  | [] => .ok d
  | (a, c) :: rest => do
    d.checkBounds a
    (d.store a c).1.storeAll rest

/-- Write the cells that a text describes into a document, which grows to hold them. Also gives
their number. -/
def Document.importCsv (d : Document) (text : String) (col row : Nat) :
    Except EditError (Document × Nat) := do
  let cs ← Csv.cells text col row
  let d := d.extendRows (Csv.rowsNeeded cs - d.sheet.rows)
  let d := d.extendCols (Csv.colsNeeded cs - d.sheet.cols)
  return (← d.storeAll cs, cs.length)

end Recalc
