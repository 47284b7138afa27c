import Mathlib.Data.Nat.PSub
import Recalc.Proofs.Address.Order
import Recalc.Proofs.Sheet.Reads

namespace Recalc

namespace Rect

variable {r : Rect} {rows cols : Nat}

theorem filter_cells_of_clip? {part : Rect} (h : r.clip? rows cols = some part) :
    r.cells.filter (·.within rows cols) = part.cells := by
  refine Address.eq_of_ordered (r.ordered_cells.filter _) part.ordered_cells fun a => ?_
  rw [List.mem_filter, mem_cells, mem_cells, contains_of_clip? h]

theorem filter_cells_of_not_clip? (h : r.clip? rows cols = none) :
    r.cells.filter (·.within rows cols) = [] := by
  refine List.filter_eq_nil_iff.mpr fun a ha => ?_
  rw [not_within_of_clip? h (mem_cells.mp ha)]
  exact Bool.false_ne_true

/-- The cells inside the first `rows` rows and `cols` columns. They are looked for only where the
first corner lies there, and there is no answer where one would be taken from zero. -/
def cellsWithin? (r : Rect) (rows cols : Nat) : Option (List Address) :=
  if r.topLeft.within rows cols then do
    let lastRow ← rows.ppred
    let lastCol ← cols.ppred
    return (spanning r.topLeft ⟨min r.bottom lastRow, min r.right lastCol⟩).cells
  else some []

theorem cellsWithin?_eq (r : Rect) (rows cols : Nat) :
    r.cellsWithin? rows cols = some (r.cells.filter (·.within rows cols)) := by
  have hwithin : r.topLeft.within rows cols = true ↔ r.top < rows ∧ r.left < cols := by
    rw [Address.within, Bool.and_eq_true, decide_eq_true_iff, decide_eq_true_iff]
    rfl
  rw [cellsWithin?]
  split
  next hin =>
    obtain ⟨hrow, hcol⟩ := hwithin.mp hin
    obtain ⟨lastRow, rfl⟩ := Nat.exists_eq_succ_of_ne_zero (Nat.ne_zero_of_lt hrow)
    obtain ⟨lastCol, rfl⟩ := Nat.exists_eq_succ_of_ne_zero (Nat.ne_zero_of_lt hcol)
    simp only [Nat.ppred_succ, Option.bind_eq_bind, Option.bind_some]
    refine congrArg some (Address.eq_of_ordered (ordered_cells _) (r.ordered_cells.filter _) ?_)
    intro a
    have hv := r.top_le_bottom
    have hh := r.left_le_right
    rw [List.mem_filter, mem_cells, mem_cells]
    simp only [Contains, spanning, topLeft, Address.within, Bool.and_eq_true, decide_eq_true_eq]
    omega
  next hout =>
    refine congrArg some (List.filter_eq_nil_iff.mpr fun a ha hin => hout (hwithin.mpr ?_)).symm
    have ha := mem_cells.mp ha
    simp only [Contains, Address.within, Bool.and_eq_true, decide_eq_true_eq] at ha hin
    omega

end Rect

namespace Expr

mutual

/-- All cells that a formula names, from left to right and a range row by row, as often as it names
them and whether or not a sheet has them. -/
def walk : Expr → List Address
  | ref r => [r.address]
  | range first last => (Rect.spanning first.address last.address).cells
  | call _ args => walkArguments args
  | binary _ left right => left.walk ++ right.walk
  | neg operand => operand.walk
  | number _ | text _ | bool _ => []

def walkArguments : List Expr → List Address
  | [] => []
  | e :: es => e.walk ++ walkArguments es

end

variable {rows cols : Nat}

mutual

theorem mentioned_eq (e : Expr) : e.mentioned rows cols = e.walk.filter (·.within rows cols) := by
  cases e with
  | number | text | bool => rfl
  | ref r =>
    rw [mentioned, walk, List.filter_singleton]
    cases r.address.within rows cols <;> rfl
  | range first last =>
    rw [mentioned, walk]
    split
    next part hpart => exact (Rect.filter_cells_of_clip? hpart).symm
    next hnone => exact (Rect.filter_cells_of_not_clip? hnone).symm
  | call f args => rw [mentioned, walk, mentionedInArguments_eq args]
  | binary op left right =>
    rw [mentioned, walk, List.filter_append, mentioned_eq left, mentioned_eq right]
  | neg operand => rw [mentioned, walk, mentioned_eq operand]

theorem mentionedInArguments_eq (es : List Expr) :
    mentionedInArguments rows cols es = (walkArguments es).filter (·.within rows cols) := by
  cases es with
  | nil => rfl
  | cons e es =>
    rw [mentionedInArguments, walkArguments, List.filter_append, mentioned_eq e,
      mentionedInArguments_eq es]

end

end Expr

/-- The cells that a walk has found so far, and the same cells as they are looked up. -/
structure Collected where
  found : List Address
  seen : AddressSet

def Collected.push (c : Collected) (a : Address) : Collected :=
  if a ∈ c.seen then c else ⟨c.found ++ [a], c.seen.insert a⟩

namespace Expr

mutual

/-- Collect the cells of a `rows` by `cols` sheet that a formula names, node by node. There is no
answer where something would be taken from an extent of zero. -/
def collect? (rows cols : Nat) (c : Collected) : Expr → Option Collected
  | ref r => some (if r.address.within rows cols then c.push r.address else c)
  | range first last =>
    ((Rect.spanning first.address last.address).cellsWithin? rows cols).map
      (·.foldl Collected.push c)
  | call _ args => collectArguments? rows cols c args
  | binary _ left right => (left.collect? rows cols c).bind fun c => right.collect? rows cols c
  | neg operand => operand.collect? rows cols c
  | number _ | text _ | bool _ => some c

def collectArguments? (rows cols : Nat) (c : Collected) : List Expr → Option Collected
  | [] => some c
  | e :: es => (e.collect? rows cols c).bind fun c => collectArguments? rows cols c es

end

variable {rows cols : Nat}

mutual

theorem collect?_eq (c : Collected) (e : Expr) :
    e.collect? rows cols c = some ((e.mentioned rows cols).foldl Collected.push c) := by
  cases e with
  | number | text | bool => rfl
  | ref r =>
    rw [collect?, mentioned]
    split <;> rfl
  | range first last =>
    rw [collect?, Rect.cellsWithin?_eq, mentioned_eq, walk, Option.map_some]
  | call f args => rw [collect?, mentioned, collectArguments?_eq c args]
  | binary op left right =>
    rw [collect?, mentioned, List.foldl_append, collect?_eq c left, Option.bind_some,
      collect?_eq _ right]
  | neg operand => rw [collect?, mentioned, collect?_eq c operand]

theorem collectArguments?_eq (c : Collected) (es : List Expr) :
    collectArguments? rows cols c es =
      some ((mentionedInArguments rows cols es).foldl Collected.push c) := by
  cases es with
  | nil => rfl
  | cons e es =>
    rw [collectArguments?, mentionedInArguments, List.foldl_append, collect?_eq c e,
      Option.bind_some, collectArguments?_eq _ es]

end

end Expr

end Recalc
