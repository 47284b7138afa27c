namespace Recalc

/-- The decimal `±digits · 10 ^ exponent`. -/
structure Decimal where
  negative : Bool
  digits : Nat
  exponent : Int
deriving DecidableEq, Repr

namespace Decimal

def digitValue (c : Char) : Nat := c.toNat - '0'.toNat

def ofDigits (cs : List Char) : Nat :=
  cs.foldl (fun n c => 10 * n + digitValue c) 0

/-- A leading sign, `true` for minus, and what follows it. -/
def splitSign : List Char → Bool × List Char
  | '-' :: cs => (true, cs)
  | '+' :: cs => (false, cs)
  | cs => (false, cs)

/-- The scale after the digits: nothing, or `e` with a whole number. -/
def readScale : List Char → Option Int
  | [] => some 0
  | c :: cs =>
    if c = 'e' ∨ c = 'E' then
      let (negative, ds) := splitSign cs
      if ds.isEmpty || !ds.all Char.isDigit then none
      else if negative then some (-(ofDigits ds : Int)) else some (ofDigits ds)
    else none

/-- Digits with at most one point among them and a digit on one side of it at least, and a scale. -/
def readUnsigned (negative : Bool) (cs : List Char) : Option Decimal :=
  let whole := cs.takeWhile Char.isDigit
  let (part, rest) := match cs.dropWhile Char.isDigit with
    | '.' :: r => (r.takeWhile Char.isDigit, r.dropWhile Char.isDigit)
    | r => ([], r)
  if whole.isEmpty && part.isEmpty then none
  else (readScale rest).map fun e => ⟨negative, ofDigits (whole ++ part), e - part.length⟩

/-- The decimal that a text spells: an optional sign, digits with an optional point, an optional
scale. -/
def read? (cs : List Char) : Option Decimal :=
  let (negative, rest) := splitSign cs
  readUnsigned negative rest

/-- No power of ten beyond this one changes a nonzero result: it is infinite or zero. -/
def scaleBound : Nat := 400

/-- The nearest double, halves to the even neighbour; what is too large becomes infinite. -/
def magnitude (digits : Nat) (exponent : Int) : Float :=
  if digits = 0 then 0
  else if exponent > scaleBound then 1 / 0
  else if exponent < -(scaleBound + digits.log2) then 0
  else Float.ofScientific digits (exponent < 0) exponent.natAbs

def toFloat (d : Decimal) : Float :=
  if d.negative then -magnitude d.digits d.exponent else magnitude d.digits d.exponent

def spell (n : Nat) : List Char := Nat.toDigits 10 n

/-- `digits` with `places` of them behind the point; fewer than that are filled up with zeros. -/
def withPoint (digits : Nat) (places : Nat) : List Char × List Char :=
  let cs := spell digits
  let padded := List.replicate (places + 1 - cs.length) '0' ++ cs
  (padded.take (padded.length - places), padded.drop (padded.length - places))

def dropTrailingZeros (cs : List Char) : List Char :=
  (cs.reverse.dropWhile (· == '0')).reverse

def signChars (d : Decimal) : List Char := if d.negative then ['-'] else []

/-- Plain positional notation: no scale, and no zeros at the end of the part behind the point. -/
def positional (d : Decimal) : List Char :=
  if d.exponent ≥ 0 then d.signChars ++ spell (d.digits * Nat.pow 10 d.exponent.toNat)
  else
    let (whole, part) := withPoint d.digits d.exponent.natAbs
    let part := dropTrailingZeros part
    d.signChars ++ whole ++ if part.isEmpty then [] else '.' :: part

/-- `num / den` to the nearest whole number, halves to the even one. -/
def roundDiv (num den : Nat) : Nat :=
  let q := num / den
  let r := num % den
  if 2 * r > den ∨ (2 * r = den ∧ q % 2 = 1) then q + 1 else q

/-- Positional notation with exactly two places, halves to the even neighbour. -/
def twoPlaces (d : Decimal) : List Char :=
  let hundredths :=
    if d.exponent ≥ -2 then d.digits * Nat.pow 10 (d.exponent + 2).toNat
    else roundDiv d.digits (Nat.pow 10 (-2 - d.exponent).toNat)
  let (whole, part) := withPoint hundredths 2
  d.signChars ++ whole ++ '.' :: part

end Decimal

end Recalc
