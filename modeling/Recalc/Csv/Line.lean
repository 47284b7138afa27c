import Recalc.Text.Blank

namespace Recalc.Csv

/-- Where a line is being read: outside quotes, inside, or behind a quote that ends the quotation
unless a second one follows. -/
inductive Mode
  | plain
  | quoted
  | quoteSeen
deriving DecidableEq, Repr

/-- A line that has been read in part. Fields and characters are kept last first. -/
structure LineState where
  mode : Mode
  /-- Whether the current field has had a quote. -/
  hasQuote : Bool
  current : List Char
  fields : List String

namespace LineState

def start : LineState := ⟨.plain, false, [], []⟩

/-- A field without quotes loses the blanks around it. -/
def field (s : LineState) : String :=
  String.ofList (if s.hasQuote then s.current.reverse else Text.stripBlanks s.current.reverse)

def readPlain (s : LineState) (c : Char) : LineState :=
  if c = '"' then { s with mode := .quoted, hasQuote := true }
  else if c = ',' then ⟨.plain, false, [], s.field :: s.fields⟩
  else { s with mode := .plain, current := c :: s.current }

def read (s : LineState) (c : Char) : LineState :=
  match s.mode with
  | .plain => s.readPlain c
  | .quoted =>
    if c = '"' then { s with mode := .quoteSeen } else { s with current := c :: s.current }
  | .quoteSeen =>
    if c = '"' then { s with mode := .quoted, current := c :: s.current } else s.readPlain c

/-- All fields, unless a quote is open. -/
def finish? (s : LineState) : Option (List String) :=
  match s.mode with
  | .quoted => none
  | _ => some (s.field :: s.fields).reverse

end LineState

/-- The fields of a line, unless a quote stays open in it. -/
def fields? (line : List Char) : Option (List String) :=
  (line.foldl LineState.read LineState.start).finish?

/-- A line, given last character first, without the carriage return at its end. -/
def withoutReturn : List Char → List Char
  | '\r' :: cs => cs
  | cs => cs

/-- The lines of a text whose first line has begun with `current`, given last character first. A
line feed ends a line, and a carriage return before it belongs to the ending. -/
def linesFrom (current : List Char) : List Char → List (List Char)
  | [] => if current.isEmpty then [] else [current.reverse]
  | c :: cs =>
    if c = '\n' then (withoutReturn current).reverse :: linesFrom [] cs
    else linesFrom (c :: current) cs

def lines (text : String) : List (List Char) := linesFrom [] text.toList

/-- Whether a field has to stand in quotes. -/
def needsQuotes (cs : List Char) : Bool :=
  cs.any fun c => c == ',' || c == '"' || c == '\n' || c == '\r'

/-- Each quote twice. -/
def doubleQuotes (cs : List Char) : List Char :=
  cs.flatMap fun c => if c = '"' then ['"', '"'] else [c]

/-- A field as it is written. -/
def escape (field : String) : String :=
  let cs := field.toList
  if needsQuotes cs then String.ofList ('"' :: doubleQuotes cs ++ ['"']) else field

end Recalc.Csv
