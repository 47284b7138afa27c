import Recalc.Sheet.Basic

namespace Recalc

mutual

/-- The cells of a `rows` by `cols` sheet that a formula names, from left to right. A range counts
as its cells inside the sheet, row by row. -/
def Expr.mentioned (rows cols : Nat) : Expr → List Address
  | .ref r => if r.address.within rows cols then [r.address] else []
  | .range first last =>
    match (Rect.spanning first.address last.address).clip? rows cols with
    | some part => part.cells
    | none => []
  | .call _ args => mentionedInArguments rows cols args
  | .binary _ left right => left.mentioned rows cols ++ right.mentioned rows cols
  | .neg operand => operand.mentioned rows cols
  | _ => []

def Expr.mentionedInArguments (rows cols : Nat) : List Expr → List Address
  | [] => []
  | e :: es => e.mentioned rows cols ++ Expr.mentionedInArguments rows cols es

end

/-- The addresses that are not in `seen`, each where it first occurs. -/
def firstOccurrences (seen : AddressSet) : List Address → List Address
  | [] => []
  | a :: as =>
    if a ∈ seen then firstOccurrences seen as
    else a :: firstOccurrences (seen.insert a) as

/-- The cells of the sheet that a formula reads, each once, in the order of their first mention. -/
def Expr.dependencies (e : Expr) (rows cols : Nat) : List Address :=
  firstOccurrences ∅ (e.mentioned rows cols)

def Sheet.dependencies (s : Sheet) (c : Cell) : List Address :=
  match c.expr? with
  | some e => e.dependencies s.rows s.cols
  | none => []

end Recalc
