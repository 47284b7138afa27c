import Recalc.Error

namespace Recalc

inductive EditError
  | address (e : ReadError)
  | outOfBounds (cell : Address) (rows cols : Nat)
  | invalidSort (startRow endRow column rows cols : Nat)
  | sheetNotFound (id : String)
  /-- A line, counted from one, in which a quote stays open. -/
  | csv (line : Nat)
deriving DecidableEq, Repr

def EditError.message : EditError → String
  | address e => e.message
  | outOfBounds cell rows cols =>
    "Cell " ++ cell.text ++ " is outside the " ++ toString rows ++ "x" ++ toString cols ++ " sheet"
  | invalidSort startRow endRow column rows cols =>
    "Invalid range: rows " ++ toString (startRow + 1) ++ "..=" ++ toString (endRow + 1) ++
      " by column " ++ Column.letters column ++ " on a " ++ toString rows ++ "x" ++
      toString cols ++ " sheet"
  | sheetNotFound id => "Sheet not found: " ++ id
  | csv line => "CSV parse error at line " ++ toString line ++ ": unterminated quoted field"

end Recalc
