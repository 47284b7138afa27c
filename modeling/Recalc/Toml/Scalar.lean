import Recalc.Number.Text
import Recalc.Toml.Item
import Recalc.Toml.Reading

namespace Recalc.Toml

namespace Scalar

/-- The characters of words, which are all values without quotes and brackets. -/
def isWordChar (c : Char) : Bool :=
  c.isAlphanum || c == '_' || c == '-' || c == '+' || c == '.' || c == ':'

/-- The number of a digit, of which there are sixteen. -/
def digit? (c : Char) : Option Nat :=
  if c.isDigit then some (Decimal.digitValue c)
  else if 'a' ≤ c ∧ c ≤ 'f' then some (c.toNat - 'a'.toNat + 10)
  else if 'A' ≤ c ∧ c ≤ 'F' then some (c.toNat - 'A'.toNat + 10)
  else none

def number? (base : Nat) (cs : List Char) : Option Nat :=
  cs.foldlM
    (fun n c => do
      let d ← digit? c
      if d < base then some (base * n + d) else none)
    0

/-- Digits with single underscores between them, which are dropped. -/
def digits? (cs : List Char) : Option (List Char) :=
  let groups := cs.splitOn '_'
  if groups.any List.isEmpty then none else some groups.flatten

/-- Decimal digits without a zero in front of others. -/
def whole? (cs : List Char) : Option (List Char) :=
  if cs.length > 1 && cs.head? == some '0' then none
  else (digits? cs).filter fun ds => ds.all Char.isDigit

/-- A whole number. Only decimal ones have a sign. -/
def unbounded? : List Char → Option Int
  | '0' :: 'x' :: cs => do return (← number? 16 (← digits? cs) : Nat)
  | '0' :: 'o' :: cs => do return (← number? 8 (← digits? cs) : Nat)
  | '0' :: 'b' :: cs => do return (← number? 2 (← digits? cs) : Nat)
  | cs => do
    let (negative, cs) := Decimal.splitSign cs
    let n : Int := Decimal.ofDigits (← whole? cs)
    return if negative then -n else n

def int? (cs : List Char) : Option Int :=
  (unbounded? cs).filter fun n => -9223372036854775808 ≤ n ∧ n ≤ 9223372036854775807

/-- A number with a point, a scale or both. Behind either zeros may come first. -/
def decimal? (cs : List Char) : Option Decimal := do
  let (negative, cs) := Decimal.splitSign cs
  let inNumber (c : Char) : Bool := c.isDigit || c == '_'
  let whole ← whole? (cs.takeWhile inNumber)
  let decimals (cs : List Char) := (digits? cs).filter fun ds => ds.all Char.isDigit
  let (part, rest) ← match cs.dropWhile inNumber with
    | '.' :: r => do pure (← decimals (r.takeWhile inNumber), r.dropWhile inNumber)
    | [] => none
    | r => some ([], r)
  let scale : Int ← match rest with
    | [] => some 0
    | c :: r =>
      if c = 'e' ∨ c = 'E' then do
        let (below, r) := Decimal.splitSign r
        let n : Int := Decimal.ofDigits (← decimals r)
        pure (if below then -n else n)
      else none
  return ⟨negative, Decimal.ofDigits (whole ++ part), scale - part.length⟩

/-- A number that is not whole, infinity, or no number at all. -/
def float? (cs : List Char) : Option Float :=
  let (negative, rest) := Decimal.splitSign cs
  if rest = "inf".toList then some (if negative then -1 / 0 else 1 / 0)
  else if rest = "nan".toList then some (0 / 0)
  else ((decimal? cs).map Decimal.toFloat).filter fun x => x != 1 / 0

/-- Whether two digits spell a number between two others. -/
def isBetween (least most : Nat) (c d : Char) : Bool :=
  c.isDigit && d.isDigit && least ≤ Decimal.ofDigits [c, d] && Decimal.ofDigits [c, d] ≤ most

def isLeapYear (year : Nat) : Bool := year % 4 == 0 && (year % 100 != 0 || year % 400 == 0)

def daysIn (year month : Nat) : Nat :=
  if month = 2 then if isLeapYear year then 29 else 28
  else if month ∈ [4, 6, 9, 11] then 30
  else 31

def isDate : List Char → Bool
  | [y1, y2, y3, y4, '-', m1, m2, '-', d1, d2] =>
    let year := [y1, y2, y3, y4]
    year.all Char.isDigit && isBetween 1 12 m1 m2 &&
      isBetween 1 (daysIn (Decimal.ofDigits year) (Decimal.ofDigits [m1, m2])) d1 d2
  | _ => false

/-- What follows a time of hours, minutes, seconds and perhaps a fraction. -/
def afterTime? : List Char → Option (List Char)
  | h1 :: h2 :: ':' :: m1 :: m2 :: ':' :: s1 :: s2 :: rest =>
    if isBetween 0 23 h1 h2 && isBetween 0 59 m1 m2 && isBetween 0 60 s1 s2 then
      match rest with
      | '.' :: c :: r => if c.isDigit then some (r.dropWhile Char.isDigit) else none
      | _ => some rest
    else none
  | _ => none

/-- How far the place of a time is from Greenwich, if that is said. -/
def isOffset : List Char → Bool
  | [] | ['Z'] | ['z'] => true
  | [sign, h1, h2, ':', m1, m2] =>
    (sign == '+' || sign == '-') && isBetween 0 23 h1 h2 && isBetween 0 59 m1 m2
  | _ => false

/-- A time of a day that is known. -/
def isTimeOfDate (cs : List Char) : Bool := (afterTime? cs).any isOffset

/-- A date, a time, or a date and a time with a letter between them. -/
def isMoment (cs : List Char) : Bool :=
  isDate cs || afterTime? cs == some [] ||
    (isDate (cs.take 10) && (cs[10]? == some 'T' || cs[10]? == some 't') &&
      isTimeOfDate (cs.drop 11))

def ofWord? (cs : List Char) : Option Item :=
  if cs = "true".toList then some (.bool true)
  else if cs = "false".toList then some (.bool false)
  else if isMoment cs then some (.moment (String.ofList cs))
  else ((int? cs).map .int).or ((float? cs).map .float)

/-- A word and its value. A blank may stand between a date and its time. -/
def reading : Reading Item := do
  let cs ← Reading.span isWordChar
  let timeOfDate : Reading Item := do
    Reading.word " "
    let time ← Reading.span isWordChar
    if isDate cs && isTimeOfDate time then return .moment (String.ofList (cs ++ ' ' :: time))
    else failure
  timeOfDate <|> liftM (ofWord? cs)

end Scalar

end Recalc.Toml
