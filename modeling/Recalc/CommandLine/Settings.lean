import Recalc.Error
import Recalc.Toml.File

namespace Recalc.CommandLine

structure Settings where
  rows : Nat
  cols : Nat
  policy : Policy
deriving DecidableEq, Repr

namespace Settings

open Toml (Item Table)

def standard : Settings := ⟨20, 10, .standard⟩

/-- One of the settings of a group, which are told apart by their names in a table and by their
position in a list. -/
def member? (name : String) (position : Nat) : Option Item → Option (Option Item)
  | none => some none
  | some (.table _ t) => some (t.lookup name)
  | some (.list items) => some items[position]?
  | some (.tables rows) => some (rows[position]?.map (.table .header))
  | some _ => none

/-- A size, which is no negative number. -/
def size? (standard : Nat) : Option Item → Option Nat
  | none => some standard
  | some (.int n) => if n < 0 then none else some n.toNat
  | some _ => none

def isEmpty : Item → Bool
  | .list items => items.isEmpty
  | .table _ t => t.isEmpty
  | _ => false

/-- An error code, which is a name in capitals. It may also be the name of an entry without
contents. -/
def code? (standard : ErrorCode) : Option Item → Option ErrorCode
  | none => some standard
  | some (.text s) => ErrorCode.ofName? s
  | some (.table _ [(name, item)]) => if isEmpty item then ErrorCode.ofName? name else none
  | some _ => none

/-- The settings that a file makes, unless something in it is not as it has to be. -/
def read? (text : String) : Option Settings := do
  let t ← Toml.ofText? text
  let sheet := t.lookup "sheet"
  let rows ← size? standard.rows (← member? "rows" 0 sheet)
  let cols ← size? standard.cols (← member? "cols" 1 sheet)
  let code ← code? standard.policy.unknownFunction
    (← member? "unknown_function" 0 (t.lookup "eval"))
  return ⟨rows, cols, ⟨code⟩⟩

end Settings

end Recalc.CommandLine
