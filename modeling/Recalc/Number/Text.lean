import Recalc.Number.Shortest

namespace Recalc.Number

def isNaN (x : Float) : Bool := x != x

def isInfinite (x : Float) : Bool := x == 1 / 0 || x == -1 / 0

def isFinite (x : Float) : Bool := !isNaN x && !isInfinite x

/-- The shortest positional text that reads back as the number, a negative zero included. -/
def plain (x : Float) : String :=
  if isNaN x then "NaN"
  else if isInfinite x then if x > 0 then "inf" else "-inf"
  else String.ofList (shortest x).positional

/-- A number as text: the shortest that reads back, and zero without a sign. -/
def canonical (x : Float) : String :=
  if isNaN x then "NaN"
  else if isInfinite x then if x > 0 then "Infinity" else "-Infinity"
  else if x == 0 then "0"
  else String.ofList (shortest x).positional

/-- Whole numbers of less than eleven digits are shown without places. -/
def shownWhole (d : Decimal) : Bool :=
  let unit := Nat.pow 10 d.exponent.natAbs
  if d.exponent ≥ 0 then d.digits * unit < 10000000000
  else d.digits % unit == 0 && d.digits < 10000000000 * unit

/-- A number as a grid shows it: small whole numbers plainly, all others with two places. -/
def display (x : Float) : String :=
  if isNaN x then "#NAN!"
  else if isInfinite x then "#INF!"
  else if x == 0 then "0"
  else if shownWhole (exact x) then String.ofList (exact x).positional
  else String.ofList (exact x).twoPlaces

/-- The finite number that a text spells. It starts with a digit, a sign or a point. -/
def read? (cs : List Char) : Option Float :=
  match Decimal.read? cs with
  | none => none
  | some d => if isFinite d.toFloat then some d.toFloat else none

end Recalc.Number
