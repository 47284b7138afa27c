import Recalc.Address.Basic

namespace Recalc

/-- The cells between two opposite corners, both included. -/
structure Rect where
  top : Nat
  left : Nat
  bottom : Nat
  right : Nat
  top_le_bottom : top ≤ bottom
  left_le_right : left ≤ right
deriving DecidableEq

namespace Rect

/-- The rectangle that two cells span, in whichever corners they lie. -/
def spanning (a b : Address) : Rect where
  top := min a.row b.row
  left := min a.col b.col
  bottom := max a.row b.row
  right := max a.col b.col
  top_le_bottom := by omega
  left_le_right := by omega

def topLeft (r : Rect) : Address := ⟨r.top, r.left⟩

def bottomRight (r : Rect) : Address := ⟨r.bottom, r.right⟩

def height (r : Rect) : Nat := r.bottom - r.top + 1

def width (r : Rect) : Nat := r.right - r.left + 1

def Contains (r : Rect) (a : Address) : Prop :=
  r.top ≤ a.row ∧ a.row ≤ r.bottom ∧ r.left ≤ a.col ∧ a.col ≤ r.right

instance (r : Rect) (a : Address) : Decidable (r.Contains a) :=
  inferInstanceAs (Decidable (_ ∧ _))

/-- The cells row by row, and from left to right within a row. -/
def cells (r : Rect) : List Address :=
  (List.range' r.top r.height).flatMap fun row =>
    (List.range' r.left r.width).map fun col => ⟨row, col⟩

/-- The part inside the first `rows` rows and `cols` columns, unless it is empty. -/
def clip? (r : Rect) (rows cols : Nat) : Option Rect :=
  if h : r.top < rows ∧ r.left < cols then
    some { r with
      bottom := min r.bottom (rows - 1)
      right := min r.right (cols - 1)
      top_le_bottom := by have := r.top_le_bottom; omega
      left_le_right := by have := r.left_le_right; omega }
  else none

/-- The smallest rectangle that holds `r` and one more cell. -/
def cover (r : Rect) (a : Address) : Rect where
  top := min r.top a.row
  left := min r.left a.col
  bottom := max r.bottom a.row
  right := max r.right a.col
  top_le_bottom := by have := r.top_le_bottom; omega
  left_le_right := by have := r.left_le_right; omega

/-- The first `n` cells. A rectangle of `n` rows and `n` columns at its top left holds them. -/
def firstCells (r : Rect) (n : Nat) : List Address :=
  match r.clip? (r.top + n) (r.left + n) with
  | none => []
  | some part => part.cells.take n

theorem mem_cells {r : Rect} {a : Address} : a ∈ r.cells ↔ r.Contains a := by
  have hv := r.top_le_bottom
  have hh := r.left_le_right
  simp only [cells, List.mem_flatMap, List.mem_map, List.mem_range'_1, height, width, Contains]
  constructor
  · rintro ⟨row, hrow, col, hcol, rfl⟩
    dsimp only
    omega
  · rintro ⟨h1, h2, h3, h4⟩
    exact ⟨a.row, by omega, a.col, by omega, rfl⟩

end Rect

end Recalc
