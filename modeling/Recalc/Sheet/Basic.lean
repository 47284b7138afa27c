import Recalc.Address.Rect
import Recalc.Sheet.Cell

namespace Recalc

/-- A sheet of `rows` rows and `cols` columns. Cells without an entry are empty. -/
structure Sheet where
  id : String
  name : String
  rows : Nat
  cols : Nat
  cells : AddressMap Cell

namespace Sheet

def empty (id name : String) (rows cols : Nat) : Sheet := ⟨id, name, rows, cols, ∅⟩

def get? (s : Sheet) (a : Address) : Option Cell := s.cells[a]?

def set (s : Sheet) (a : Address) (c : Cell) : Sheet := { s with cells := s.cells.insert a c }

def remove (s : Sheet) (a : Address) : Sheet := { s with cells := s.cells.erase a }

def contains (s : Sheet) (a : Address) : Bool := a.within s.rows s.cols

/-- Append rows. A sheet never has more than the greatest number of rows. -/
def extendRows (s : Sheet) (count : Nat) : Sheet :=
  { s with rows := min (s.rows + count) Address.limit }

def extendCols (s : Sheet) (count : Nat) : Sheet :=
  { s with cols := min (s.cols + count) Address.limit }

def occupied (s : Sheet) : List (Address × Cell) := s.cells.toList

def size (s : Sheet) : Nat := s.cells.size

/-- The smallest rectangle that holds all occupied cells. -/
def bounds? (s : Sheet) : Option Rect :=
  match s.cells.keys with
  | [] => none
  | a :: as => some (as.foldl Rect.cover (Rect.spanning a a))

end Sheet

end Recalc
