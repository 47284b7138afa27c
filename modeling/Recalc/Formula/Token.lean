import Recalc.Address.Notation
import Recalc.Error
import Recalc.Formula.Operator
import Recalc.Number.Text

namespace Recalc

inductive Lexeme
  | number (x : Float)
  | text (s : String)
  | bool (b : Bool)
  /-- A word in the form of an address, in capitals and with its marks. -/
  | cell (s : String)
  /-- Any other word, in capitals. -/
  | name (s : String)
  | operator (op : Operator)
  | leftParen
  | rightParen
  | comma
  | colon

namespace Lexeme

/-- The characters that a formula writes for a lexeme. -/
def chars : Lexeme → List Char
  | number x => (Number.canonical x).toList
  | text s => '"' :: s.toList ++ ['"']
  | bool b => (if b then "TRUE" else "FALSE").toList
  | cell s => s.toList
  | name s => s.toList
  | operator op => op.chars
  | leftParen => ['(']
  | rightParen => [')']
  | comma => [',']
  | colon => [':']

def described : Lexeme → String
  | number x => Number.plain x
  | l => String.ofList l.chars

end Lexeme

/-- A lexeme and the number of characters before it. -/
structure Token where
  lexeme : Lexeme
  pos : Nat

/-- What a message calls the place behind the last token. -/
def endOfInput : String := "end of input"

/-- How a text ends that is read token by token: at its end, or where no token can be read. -/
inductive Stop
  | finished (pos : Nat)
  | broken (e : ReadError)

/-- The tokens of a text up to its stop. -/
structure Scan where
  tokens : List Token
  stop : Stop

namespace Scan

def isWordStart (c : Char) : Bool := c.isAlpha || c == '$'

def isWordChar (c : Char) : Bool := c.isAlphanum || c == '$'

/-- The class of a word, which is read in capitals. -/
def classify (word : List Char) : Lexeme :=
  let capitals := word.map Char.toUpper
  if (AddressText.read? capitals).isSome then .cell (String.ofList capitals)
  else if capitals = "TRUE".toList then .bool true
  else if capitals = "FALSE".toList then .bool false
  else .name (String.ofList capitals)

/-- The longest number at the start: digits with at most one point among them. A point alone is
no number. -/
def number? (cs : List Char) : Option (Lexeme × Nat) :=
  let whole := cs.takeWhile Char.isDigit
  match cs.dropWhile Char.isDigit with
  | '.' :: rest =>
    let part := rest.takeWhile Char.isDigit
    if whole.isEmpty && part.isEmpty then none
    else
      let value := (Decimal.mk false (Decimal.ofDigits (whole ++ part)) (-part.length)).toFloat
      some (.number value, whole.length + 1 + part.length)
  | _ => some (.number (Decimal.mk false (Decimal.ofDigits whole) 0).toFloat, whole.length)

/-- The text up to the next quote. -/
def quoted? (cs : List Char) : Option (Lexeme × Nat) :=
  let inner := cs.takeWhile (· != '"')
  if inner.length < cs.length then some (.text (String.ofList inner), inner.length + 2) else none

/-- The lexeme at the start of `c :: rest` and the number of its characters. -/
def lexeme? (c : Char) (rest : List Char) : Option (Lexeme × Nat) :=
  if c = '+' then some (.operator .add, 1)
  else if c = '-' then some (.operator .sub, 1)
  else if c = '*' then some (.operator .mul, 1)
  else if c = '/' then some (.operator .div, 1)
  else if c = '^' then some (.operator .pow, 1)
  else if c = '=' then some (.operator .eq, 1)
  else if c = '<' then
    match rest with
    | '>' :: _ => some (.operator .ne, 2)
    | '=' :: _ => some (.operator .le, 2)
    | _ => some (.operator .lt, 1)
  else if c = '>' then
    match rest with
    | '=' :: _ => some (.operator .ge, 2)
    | _ => some (.operator .gt, 1)
  else if c = '(' then some (.leftParen, 1)
  else if c = ')' then some (.rightParen, 1)
  else if c = ',' then some (.comma, 1)
  else if c = ':' then some (.colon, 1)
  else if c = '"' then quoted? rest
  else if c.isDigit || c == '.' then number? (c :: rest)
  else if isWordStart c then
    let word := (c :: rest).takeWhile isWordChar
    some (classify word, word.length)
  else none

/-- Why no lexeme starts with `c`. -/
def refusal (c : Char) (pos : Nat) : ReadError :=
  if c = '"' then .unterminatedString pos else .unexpectedCharacter c pos

/-- The tokens of `cs`, which stands behind `pos` other characters. -/
def ofChars (pos : Nat) : List Char → Scan
  | [] => ⟨[], .finished pos⟩
  | c :: rest =>
    if Text.isBlank c then ofChars (pos + 1) rest
    else
      match lexeme? c rest with
      | none => ⟨[], .broken (refusal c pos)⟩
      | some (l, n) =>
        let later := ofChars (pos + 1 + (n - 1)) (rest.drop (n - 1))
        ⟨⟨l, pos⟩ :: later.tokens, later.stop⟩
termination_by cs => cs.length
decreasing_by all_goals simp only [List.length_cons, List.length_drop]; omega

def ofText (s : String) : Scan := ofChars 0 s.toList

/-- All tokens of a text and the length of the text, if nothing in it stops the reading. -/
def complete (s : Scan) : Except ReadError (List Token × Nat) :=
  match s.stop with
  | .finished pos => .ok (s.tokens, pos)
  | .broken e => .error e

end Scan

end Recalc
