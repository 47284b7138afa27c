import Recalc.Number.Text
import Recalc.Text.Blank

namespace Recalc

inductive Value
  | number (x : Float)
  | text (s : String)
  | bool (b : Bool)
  | null
deriving Inhabited

namespace Value

def boolText (b : Bool) : String := if b then "true" else "false"

/-- The text of a value where text is asked for. -/
def toText : Value → String
  | number x => Number.canonical x
  | text s => s
  | bool b => boolText b
  | null => ""

/-- The number of a value where a number is asked for; what has none counts as zero. -/
def toNumber : Value → Float
  | number x => if Number.isNaN x then 0 else x
  | text s => (Number.read? (Text.stripBlanks s.toList)).getD 0
  | bool b => if b then 1 else 0
  | null => 0

/-- Only numbers are counted in sums and the like. -/
def number? : Value → Option Float
  | number x => if Number.isNaN x then none else some x
  | _ => none

def isTrue : Value → Bool
  | number x => x != 0 && !Number.isNaN x
  | text s => s != ""
  | bool b => b
  | null => false

/-- Equality of formulas: values of two kinds differ, and numbers compare as numbers. -/
def same : Value → Value → Bool
  | number x, number y => x == y
  | text s, text t => s == t
  | bool a, bool b => a == b
  | null, null => true
  | _, _ => false

def isNull : Value → Bool
  | null => true
  | _ => false

def isBlank : Value → Bool
  | null => true
  | text s => s == ""
  | _ => false

end Value

end Recalc
