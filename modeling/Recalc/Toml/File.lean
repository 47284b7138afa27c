import Recalc.Toml.Quoted

namespace Recalc.Toml

open Reading

/-- No key has this many names, and no value lies inside this many others. -/
def depthLimit : Nat := 80

def isBareChar (c : Char) : Bool := c.isAlphanum || c == '_' || c == '-'

/-- A name, as it is or in quotes, and the blanks around it. -/
def name : Reading String := do
  let _ ← span isSpace
  let cs ← Quoted.basic <|> Quoted.literal <|> do
    let cs ← span isBareChar
    if cs.isEmpty then failure else return cs
  let _ ← span isSpace
  return String.ofList cs

def key : Reading Key := do
  let first ← name
  let later ← many (do word "."; name)
  let names := first :: later
  if names.length < depthLimit then return ⟨names.dropLast, names.getLast?.getD first⟩
  else failure

def comment : Reading Unit := do
  word "#"
  let _ ← span isPlain

/-- The end of a line, with a comment perhaps. -/
def lineEnd : Reading Unit := do
  let _ ← span isSpace
  comment <|> pure ()
  newline <|> atEnd

def gap : Reading Unit := do
  let _ ← many ((do let _ ← one isSpace) <|> newline <|> comment)

def list (value : Reading Item) : Reading Item := do
  word "["
  let items ← separated (do gap; let item ← value; gap; return item)
  if items.isEmpty then gap else (do word ","; gap) <|> pure ()
  word "]"
  return .list items

/-- An equality sign and a value, each with the blanks in front of it. -/
def assigned (value : Reading Item) : Reading Item := do
  word "="
  let _ ← span isSpace
  value

def table (value : Reading Item) : Reading Item := do
  word "\x7b"
  let entries ← separated do
    let k ← key
    let item ← assigned value
    let _ ← span isSpace
    return (k, item)
  let _ ← span isSpace
  word "\x7d"
  let t ← (entries.foldlM (fun (t : Table) (k, item) => t.add k item .literal) [] : Option Table)
  return .table .literal t

def simpleValue : Reading Item :=
  (do return .text (String.ofList (← Quoted.value))) <|> Scalar.reading

/-- A value with no more than `depth` others around its innermost part. -/
def value : Nat → Reading Item
  | 0 => simpleValue
  | depth + 1 => simpleValue <|> list (value depth) <|> table (value depth)

/-- A line that is not blank. -/
inductive Line
  | entry (key : Key) (item : Item)
  | header (key : Key)
  /-- A header that may be repeated. -/
  | rowHeader (key : Key)

def line : Reading Line := do
  let l ← (do word "[["; let k ← key; word "]]"; return .rowHeader k) <|>
    (do word "["; let k ← key; word "]"; return .header k) <|>
    (do let k ← key; return .entry k (← assigned (value (depthLimit - 1))))
  lineEnd
  return l

/-- A line and its end. A line without an end is the last, and is not empty. -/
def lineOrBlank : Reading (Option Line) := do
  let _ ← span isSpace
  match ← next? with
  | none => failure
  | some c =>
    if c = '#' || c = '\n' || c = '\r' then do
      lineEnd
      return none
    else return some (← line)

/-- All lines of a text, which may begin with the mark of its byte order. -/
def lines : Reading (List Line) := do
  word "\ufeff" <|> pure ()
  let found ← many lineOrBlank
  let _ ← span isSpace
  atEnd
  return found.filterMap id

/-- The table that has been read in part, and the names that lead to the one of the last header. -/
structure File where
  root : Table
  current : List String

namespace File

def read (f : File) : Line → Option File
  | .entry key item => do
    let root ← f.root.change .ofHeader (fun origin t => t.add key item origin) .header f.current
    return { f with root }
  | .header key => do return ⟨← f.root.begin key, key.path ++ [key.name]⟩
  | .rowHeader key => do return ⟨← f.root.beginRow key, key.path ++ [key.name]⟩

end File

def ofText? (text : String) : Option Table := do
  let (ls, _) ← lines.run text.toList
  let f ← ls.foldlM File.read ⟨[], []⟩
  return f.root

end Recalc.Toml
