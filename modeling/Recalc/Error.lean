import Recalc.Address.Notation
import Recalc.Text.LowerCase

namespace Recalc

inductive ErrorCode
  | parse
  | circular
  | div0
  | ref
  | name
  | eval
deriving DecidableEq, Repr, Inhabited

namespace ErrorCode

def text : ErrorCode → String
  | parse => "PARSE"
  | circular => "CIRCULAR"
  | div0 => "DIV0"
  | ref => "REF"
  | name => "NAME"
  | eval => "EVAL"

/-- What a cell shows in place of a value. -/
def marker (c : ErrorCode) : String := "#" ++ c.text ++ "!"

def all : List ErrorCode := [parse, circular, div0, ref, name, eval]

def ofName? (s : String) : Option ErrorCode := all.find? (·.text == s)

/-- The code with this name, in capitals or small letters. -/
def ofText? (s : String) : Option ErrorCode := ofName? (Text.upperAscii s)

def unknownMessage (s : String) : String := "Unknown error code: " ++ Text.upperAscii s

end ErrorCode

/-- The part of the error codes that a user may choose. -/
structure Policy where
  /-- Shown for calls of functions that do not exist. -/
  unknownFunction : ErrorCode
deriving DecidableEq, Repr

def Policy.standard : Policy := ⟨.name⟩

/-- Why a cell has no value, as it is stored and shown. -/
structure Failure where
  code : ErrorCode
  message : String
deriving DecidableEq, Repr

/-- Why a text cannot be read as an address or as a formula. -/
inductive ReadError
  | invalidAddress (text : String)
  | unterminatedString (pos : Nat)
  | unexpectedCharacter (c : Char) (pos : Nat)
  | unexpectedToken (token : String) (pos : Nat)
deriving DecidableEq, Repr

def ReadError.message : ReadError → String
  | invalidAddress text => "Invalid cell address: " ++ text
  | unterminatedString pos => "Unterminated string starting at position " ++ toString pos
  | unexpectedCharacter c pos =>
    "Unexpected character '" ++ String.singleton c ++ "' at position " ++ toString pos
  | unexpectedToken token pos => "Unexpected token " ++ token ++ " at position " ++ toString pos

/-- Why a formula or a cell has no value. -/
inductive EvalError
  | circular (cell : Address)
  | divisionByZero
  | unknownFunction (name : String)
  | arity (name : String) (least most given : Nat)
  | rangeOutsideFunction (range : String)
  | outOfBounds (cell : Address)
  /-- The formula's text cannot be read. -/
  | unparsed (source : String)
  /-- The cell that was read holds a stored failure. -/
  | propagated (cell : Address) (failure : Failure)
deriving DecidableEq, Repr

namespace EvalError

def message : EvalError → String
  | circular cell => "Circular reference detected: " ++ cell.text
  | divisionByZero => "Division by zero"
  | unknownFunction name => "Unknown function: " ++ name
  | arity name least most given =>
    name ++ "() expects " ++ toString least ++ " or " ++ toString most ++ " arguments, got " ++
      toString given
  | rangeOutsideFunction range =>
    "Range " ++ range ++ " cannot be evaluated outside a function argument"
  | outOfBounds cell => "Reference " ++ cell.text ++ " is outside the sheet"
  | unparsed source => "Formula could not be parsed: " ++ source
  | propagated cell failure => "Error in " ++ cell.text ++ ": " ++ failure.message

def code (policy : Policy) : EvalError → ErrorCode
  | circular _ => .circular
  | divisionByZero => .div0
  | unknownFunction _ => policy.unknownFunction
  | arity .. => .eval
  | rangeOutsideFunction _ => .eval
  | outOfBounds _ => .ref
  | unparsed _ => .parse
  | propagated _ failure => failure.code

/-- What a cell with this error shows. A failure read from another cell stays as it was stored. -/
def failure (policy : Policy) (e : EvalError) : Failure :=
  match e with
  | propagated _ stored => stored
  | e => ⟨e.code policy, e.message⟩

end EvalError

/-- What a text that cannot be read shows where a value is asked for. -/
def ReadError.failure (e : ReadError) : Failure := ⟨.parse, e.message⟩

namespace Reference

def decode (text : String) : Except ReadError Reference :=
  match ofText? text with
  | some r => .ok r
  | none => .error (.invalidAddress text)

/-- The text of a reference with a column and a row that may be negative. -/
def encode (col row : Int) (anchor : Anchor) : Except ReadError String :=
  if col < 0 ∨ row < 0 then
    .error (.invalidAddress ("(" ++ toString col ++ ", " ++ toString row ++ ")"))
  else .ok (text ⟨⟨row.toNat, col.toNat⟩, anchor⟩)

/-- Two addresses with a colon between them, blanks around each allowed. -/
def decodeRange (text : String) : Except ReadError (Reference × Reference) :=
  let cs := text.toList
  let read (part : List Char) := ofText? (String.ofList (Text.stripBlanks part))
  match read (cs.takeWhile (· != ':')), read ((cs.dropWhile (· != ':')).drop 1) with
  | some first, some last => .ok (first, last)
  | _, _ => .error (.invalidAddress text)

end Reference

/-- The place that a text names; marks in it are dropped. -/
def Address.decode (text : String) : Except ReadError Address :=
  (Reference.decode text).map (·.address)

end Recalc
