import Recalc.Address.Basic
import Recalc.Address.Notation
import Recalc.Address.Rect
import Recalc.CommandLine.Arguments
import Recalc.CommandLine.Folder
import Recalc.CommandLine.Session
import Recalc.CommandLine.Settings
import Recalc.Csv.Export
import Recalc.Csv.Import
import Recalc.Csv.Line
import Recalc.Document.Basic
import Recalc.Document.Edit
import Recalc.Document.Error
import Recalc.Document.Sort
import Recalc.Error
import Recalc.Evaluation.Basic
import Recalc.Evaluation.Eval
import Recalc.Evaluation.Run
import Recalc.Formula.Builtin
import Recalc.Formula.Expr
import Recalc.Formula.Operator
import Recalc.Formula.Reader
import Recalc.Formula.Token
import Recalc.Graph.Basic
import Recalc.Graph.Links
import Recalc.Graph.Order
import Recalc.Main
import Recalc.Number.Decimal
import Recalc.Number.Shortest
import Recalc.Number.Text
import Recalc.Sheet.Basic
import Recalc.Sheet.Budget
import Recalc.Sheet.Cell
import Recalc.Sheet.Dependencies
import Recalc.Sheet.Store
import Recalc.Text.Blank
import Recalc.Text.CaseTable
import Recalc.Text.LowerCase
import Recalc.Toml.File
import Recalc.Toml.Item
import Recalc.Toml.Quoted
import Recalc.Toml.Reading
import Recalc.Toml.Scalar
import Recalc.Value
import Recalc.Proofs.Graph.Reach
import Recalc.Proofs.Graph.Reads
import Recalc.Proofs.Graph.Loops
import Recalc.Proofs.Graph.Loading
import Recalc.Proofs.Document.History
import Recalc.Proofs.Graph.Order
import Recalc.Proofs.Document.Loops
import Recalc.Proofs.Document.Recalculation
import Recalc.Proofs.Evaluation.Locality
import Recalc.Proofs.Document.Linked
import Recalc.Proofs.Document.LeftOut
import Recalc.Proofs.Evaluation.Loops
import Recalc.Proofs.Document.Readable
import Recalc.Proofs.Document.Rejection
import Recalc.Proofs.Document.UpToDate
import Recalc.Proofs.Address.Notation
import Recalc.Proofs.Formula.Scanning
import Recalc.Proofs.Evaluation.Transparency
import Recalc.Proofs.Document.Import
import Recalc.Proofs.Formula.Steps
import Recalc.Proofs.Formula.Grammar
import Recalc.Proofs.Number.Rounding
import Recalc.Proofs.Number.Packing
import Recalc.Proofs.Number.Magnitude
import Recalc.Proofs.Number.ReadBack
import Recalc.Proofs.Formula.Legibility
import Recalc.Proofs.Formula.Printing
import Recalc.Proofs.Csv.Quoting
import Recalc.Proofs.Document.InPlace
import Recalc.Proofs.Sheet.MoveRows
import Recalc.Proofs.Document.DefaultSort
import Recalc.Proofs.Csv.Lines
import Recalc.Proofs.Csv.Fields
import Recalc.Proofs.Document.Export
import Recalc.Proofs.Number.Comparison
import Recalc.Proofs.Sheet.KeyOrder
import Recalc.Proofs.Sheet.SortedRows
import Recalc.Proofs.Evaluation.Relocation
import Recalc.Proofs.Sheet.SortAgain
import Recalc.Proofs.Document.Resubmission
import Recalc.Proofs.Evaluation.InPlace
import Recalc.Proofs.Evaluation.Guard
import Recalc.Proofs.Graph.Counting
import Recalc.Proofs.Address.RoundTrip
import Recalc.Proofs.Evaluation.Arguments
import Recalc.Proofs.Evaluation.Explanation
import Recalc.Proofs.Number.Overflow
import Recalc.Proofs.Formula.Numerals
import Recalc.Proofs.Evaluation.Growth
import Recalc.Proofs.Graph.Relation
import Recalc.Proofs.Sheet.Extraction
import Recalc.Proofs.Csv.Parity
import Recalc.Proofs.Address.Order
import Recalc.Proofs.Formula.Cutting
import Recalc.Proofs.Formula.Beginnings
import Recalc.Proofs.Formula.Refusal
import Recalc.Proofs.Formula.Spelling
import Recalc.Proofs.Formula.Splitting
import Recalc.Proofs.Formula.Cursor
