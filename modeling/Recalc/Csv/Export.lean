import Recalc.Csv.Line
import Recalc.Document.Basic

namespace Recalc.Document

def csvRow (d : Document) (row : Nat) : String :=
  ",".intercalate ((List.range d.sheet.cols).map fun col =>
    Csv.escape (d.evaluateCell ⟨row, col⟩ false).exported)

def toCsv (d : Document) : String :=
  "\n".intercalate ((List.range d.sheet.rows).map d.csvRow)

end Recalc.Document
