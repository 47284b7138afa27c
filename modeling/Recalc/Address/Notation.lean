import Recalc.Address.Basic
import Recalc.Number.Decimal
import Recalc.Text.Blank

namespace Recalc

/-- Which parts of a reference are marked as fixed with a `$`. -/
structure Anchor where
  col : Bool
  row : Bool
deriving DecidableEq, Repr, Inhabited

/-- A place as a formula writes it, with its marks. -/
structure Reference where
  address : Address
  anchor : Anchor
deriving DecidableEq, Repr, Inhabited

namespace Column

/-- The letter of a digit from 0 to 25. -/
def letter (d : Nat) : Char := Char.ofNat ('A'.toNat + d)

/-- Letters for a number from 1 on: A to Z, then AA and on. Zero has no letters. -/
def spell (n : Nat) : List Char :=
  if _h : n = 0 then [] else spell ((n - 1) / 26) ++ [letter ((n - 1) % 26)]
termination_by n
decreasing_by omega

/-- The number that letters stand for, in either case. -/
def value (cs : List Char) : Nat :=
  cs.foldl (fun n c => 26 * n + (c.toUpper.toNat - 'A'.toNat + 1)) 0

/-- The column that a word of letters names. -/
def ofLetters? (cs : List Char) : Option Nat :=
  if cs.isEmpty || !cs.all Char.isAlpha || Address.limit < value cs then none
  else some (value cs - 1)

def letters (col : Nat) : String := String.ofList (spell (col + 1))

end Column

/-- The parts of a text that has the form of an address. -/
structure AddressText where
  colFixed : Bool
  letters : List Char
  rowFixed : Bool
  digits : List Char

namespace AddressText

/-- A leading `$`, and what follows it. -/
def splitMark : List Char → Bool × List Char
  | '$' :: cs => (true, cs)
  | cs => (false, cs)

/-- Letters and then digits, each behind an optional `$`, and nothing else. -/
def read? (cs : List Char) : Option AddressText :=
  let (colFixed, cs) := splitMark cs
  let letters := cs.takeWhile Char.isAlpha
  let (rowFixed, digits) := splitMark (cs.dropWhile Char.isAlpha)
  if letters.isEmpty || digits.isEmpty || !digits.all Char.isDigit then none
  else some ⟨colFixed, letters, rowFixed, digits⟩

def reference? (t : AddressText) : Option Reference :=
  match Column.ofLetters? t.letters with
  | none => none
  | some col =>
    let number := Decimal.ofDigits t.digits
    if number = 0 ∨ Address.limit < number then none
    else some ⟨⟨number - 1, col⟩, ⟨t.colFixed, t.rowFixed⟩⟩

end AddressText

namespace Reference

def ofText? (text : String) : Option Reference :=
  (AddressText.read? text.toList).bind AddressText.reference?

def chars (r : Reference) : List Char :=
  (if r.anchor.col then ['$'] else []) ++ Column.spell (r.address.col + 1) ++
    (if r.anchor.row then ['$'] else []) ++ Decimal.spell (r.address.row + 1)

def text (r : Reference) : String := String.ofList r.chars

end Reference

/-- A place written without marks. -/
def Address.text (a : Address) : String := Reference.text ⟨a, ⟨false, false⟩⟩

end Recalc
