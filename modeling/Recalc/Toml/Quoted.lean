import Recalc.Toml.Scalar

namespace Recalc.Toml

open Reading

def isSpace (c : Char) : Bool := c == ' ' || c == '\t'

/-- The characters that stand for themselves: all but those that control a device, of which only
the tab is left in. -/
def isPlain (c : Char) : Bool := c == '\t' || (' ' ≤ c && c ≤ '~') || 0x80 ≤ c.toNat

def newline : Reading Unit := word "\n" <|> word "\r\n"

namespace Quoted

/-- What a letter behind a backslash stands for. -/
def escape? (c : Char) : Option Char :=
  [('b', '\x08'), ('t', '\t'), ('n', '\n'), ('f', '\x0c'), ('r', '\r'), ('"', '"'),
    ('\\', '\\')].lookup c

/-- The character with this number to the base sixteen. -/
def ofNumber? (digits : List Char) : Option Char := do
  let n ← Scalar.number? 16 digits
  if n.isValidChar then some (Char.ofNat n) else none

/-- A backslash and what it makes of the letter or the number behind it. -/
def escaped : Reading (List Char) := do
  word "\\"
  let c ← one fun _ => true
  let e ← match c with
    | 'u' => (do ofNumber? (← exactly 4) : Reading Char)
    | 'U' => do ofNumber? (← exactly 8)
    | c => escape? c
  return [e]

/-- Some plain characters, up to one that is left out. -/
def plain (without : List Char) : Reading (List Char) := do
  let cs ← span fun c => isPlain c && !without.contains c
  if cs.isEmpty then failure else return cs

/-- Text on one line between double quotes, with escapes. -/
def basic : Reading (List Char) := do
  word "\""
  let parts ← many (escaped <|> plain ['"', '\\'])
  word "\""
  return parts.flatten

def literal : Reading (List Char) := do
  word "'"
  let parts ← many (plain ['\''])
  word "'"
  return parts.flatten

def lineFeed : Reading (List Char) := do
  newline
  return ['\n']

/-- A backslash at the end of a line. It is dropped with the line's end and all blanks and lines
behind it. -/
def continuation : Reading (List Char) := do
  word "\\"
  let _ ← span isSpace
  newline
  let _ ← many (newline <|> do let _ ← one isSpace)
  return []

/-- A quote that does not begin the end of the text. -/
def quoteInside (quote : String) : Reading (List Char) := do
  notBefore (quote ++ quote ++ quote)
  word quote
  return quote.toList

/-- Up to two quotes that stand directly before the end. -/
def quotesBefore (quote : String) (ending : Reading Unit) : Reading (List Char) :=
  (do word (quote ++ quote); ending; return (quote ++ quote).toList) <|>
    (do word quote; ending; return quote.toList) <|> (do ending; return [])

/-- Text between three quotes at either end. A line feed at its start is dropped. -/
def lines (quote : String) (part : Reading (List Char)) : Reading (List Char) := do
  let three := word (quote ++ quote ++ quote)
  three
  newline <|> pure ()
  let parts ← many (part <|> lineFeed <|> quoteInside quote)
  let last ← quotesBefore quote three
  return parts.flatten ++ last

def value : Reading (List Char) :=
  lines "\"" (continuation <|> escaped <|> plain ['"', '\\']) <|> basic <|>
    lines "'" (plain ['\'']) <|> literal

end Quoted

end Recalc.Toml
