import Recalc.Document.Basic

namespace Recalc

inductive EditAction
  | clear
  | formula (source : String)
  | literal (v : Value)

structure Edit where
  address : String
  action : EditAction

namespace Edit

/-- The value that an input stands for which is no formula: text between quotes, a number, a truth
value in capitals or small letters, or else text. -/
def literalOf (cs : List Char) : Value :=
  match cs with
  | '"' :: rest =>
    if rest.getLast? = some '"' then .text (String.ofList rest.dropLast)
    else .text (String.ofList cs)
  | _ =>
    match Number.read? cs with
    | some x => .number x
    | none =>
      let word := Text.lowerAscii (String.ofList cs)
      if word = Value.boolText true then .bool true
      else if word = Value.boolText false then .bool false
      else .text (String.ofList cs)

/-- The edit that a user means by typing `input` into a cell. -/
def ofInput (address input : String) : Edit :=
  match Text.stripBlanks input.toList with
  | [] => ⟨address, .clear⟩
  | '=' :: cs => ⟨address, .formula (String.ofList ('=' :: cs))⟩
  | cs => ⟨address, .literal (literalOf cs)⟩

end Edit

def Document.apply (d : Document) (e : Edit) : Except EditError (Document × Recalculation) := do
  let a ← (Address.decode e.address).mapError .address
  match e.action with
  | .clear => d.clear a
  | .formula source => d.update a (.ofFormula source)
  | .literal v => d.update a (.literal v)

end Recalc
