import Recalc.Document.Basic

namespace Recalc

/-- The order in which values sort: numbers by size, all else by text in small letters. -/
def Value.order (v w : Value) : Ordering :=
  match v, w with
  | .number x, .number y => if x < y then .lt else if y < x then .gt else .eq
  | v, w => compare (Text.lower v.toText) (Text.lower w.toText)

/-- The order of sort keys. Rows without a value come last in both directions. -/
def keyOrder (ascending : Bool) : Option Value → Option Value → Ordering
  | none, none => .eq
  | none, some _ => .gt
  | some _, none => .lt
  | some v, some w => if ascending then v.order w else (v.order w).swap

/-- Rows to sort, the first and the last included, and the column to sort by. -/
structure RowSort where
  startRow : Nat
  endRow : Nat
  column : Nat
  ascending : Bool

/-- A sort as it is asked for: where no rows are given they are found out from the sheet. -/
structure SortRequest where
  column : Nat
  ascending : Bool
  rows : Option (Nat × Nat)

/-- The rows that a request means, if there are any. Without given rows these are the occupied
ones, save a first row whose first cell is occupied: it is a header. -/
def SortRequest.resolve (r : SortRequest) (s : Sheet) : Option RowSort := do
  let (startRow, endRow) ← match r.rows with
    | some span => some span
    | none =>
      s.bounds?.map fun b =>
        (if b.top = 0 ∧ (s.get? ⟨0, 0⟩).isSome then 1 else b.top, b.bottom)
  if endRow < startRow then none else some ⟨startRow, endRow, r.column, r.ascending⟩

namespace Sheet

/-- What a row is sorted by: the value in the key column, if it is not empty. -/
def sortKey (s : Sheet) (policy : Policy) (column row : Nat) : Option Value :=
  match (s.evaluateCell policy ⟨row, column⟩ false).outcome with
  | .ok .null => none
  | .ok v => some v
  | .error _ => none

/-- The rows of the span in their new order. Rows with equal keys keep their order. -/
def sortedRows (s : Sheet) (policy : Policy) (o : RowSort) : List Nat :=
  let keyed := (List.range' o.startRow (o.endRow - o.startRow + 1)).map fun row =>
    (row, s.sortKey policy o.column row)
  (keyed.mergeSort fun x y => (keyOrder o.ascending x.2 y.2).isLE).map (·.1)

/-- Move each row in `rows` to the place in the span that it has in this list. -/
def moveRows (s : Sheet) (startRow : Nat) (rows : List Nat) : Sheet :=
  let targets : Std.ExtTreeMap Nat Nat :=
    Std.ExtTreeMap.ofList (rows.zip (List.range' startRow rows.length))
  let place (a : Address) : Address := ⟨targets.getD a.row a.row, a.col⟩
  { s with cells := s.occupied.foldl (fun m (a, c) => m.insert (place a) c) ∅ }

/-- Sort whole rows. Formulas move with their row and are not changed. -/
def sort (s : Sheet) (policy : Policy) (o : RowSort) : Except EditError Sheet :=
  if o.endRow < o.startRow ∨ s.rows ≤ o.endRow ∨ s.cols ≤ o.column then
    .error (.invalidSort o.startRow o.endRow o.column s.rows s.cols)
  else .ok (s.moveRows o.startRow (s.sortedRows policy o))

end Sheet

/-- Sort rows and find the links of the moved formulas anew. -/
def Document.sort (d : Document) (o : RowSort) : Except EditError Document := do
  return d.withSheet (← d.sheet.sort d.policy o)

end Recalc
