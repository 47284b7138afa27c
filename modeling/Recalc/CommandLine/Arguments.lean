import Recalc.Document.Sort
import Recalc.Formula.Builtin

namespace Recalc.CommandLine

inductive ArgumentError
  | missingValue (option : String)
  | unknownOption (option : String)
  | unexpectedArgument (argument : String)
  | invalidEdit (text : String)
  | invalidSort (text : String)
  | demoWithFile
deriving DecidableEq, Repr

def ArgumentError.message : ArgumentError → String
  | missingValue option => option ++ " requires a value"
  | unknownOption option => "Unknown option: " ++ option
  | unexpectedArgument argument => "Unexpected argument: " ++ argument
  | invalidEdit text => "Invalid edit '" ++ text ++ "': expected ADDRESS=INPUT"
  | invalidSort text => "Invalid sort '" ++ text ++ "': expected COLUMN or COLUMN:desc"
  | demoWithFile => "--demo cannot be combined with a file"

/-- What the program is asked to do. Lists are in the order of the command line. -/
structure Arguments where
  file : Option String
  demo : Bool
  /-- Addresses and what to type there. -/
  edits : List (String × String)
  sort : Option SortRequest
  formulas : List String
  shown : List String
  explained : List String
  output : Option String
  config : Option String
  help : Bool

namespace Arguments

def start : Arguments := ⟨none, false, [], none, [], [], [], none, none, false⟩

/-- Whether nothing is asked for but the sheet itself. -/
def printsSheet (a : Arguments) : Bool :=
  a.formulas.isEmpty && a.shown.isEmpty && a.explained.isEmpty && a.output.isNone

/-- The parts of a text before and after the first `c`. -/
def splitAt? (c : Char) (cs : List Char) : Option (List Char × List Char) :=
  match cs.dropWhile (· != c) with
  | [] => none
  | _ :: rest => some (cs.takeWhile (· != c), rest)

/-- An address, an equality sign and what to type there. -/
def readEdit (text : String) : Except ArgumentError (String × String) :=
  match splitAt? '=' text.toList with
  | none => .error (.invalidEdit text)
  | some (address, input) =>
    match Text.stripBlanks address with
    | [] => .error (.invalidEdit text)
    | address => .ok (String.ofList address, String.ofList input)

/-- The letters of a column, and a colon and a direction if it is not the ascending one. -/
def readSort (text : String) : Except ArgumentError SortRequest :=
  let (letters, direction) := (splitAt? ':' text.toList).getD (text.toList, "asc".toList)
  let word := Text.lowerAscii (String.ofList (Text.stripBlanks direction))
  match Column.ofLetters? (Text.stripBlanks letters) with
  | none => .error (.invalidSort text)
  | some column =>
    if word = "asc" then .ok ⟨column, true, none⟩
    else if word = "desc" then .ok ⟨column, false, none⟩
    else .error (.invalidSort text)

/-- The options that take a value, with what the value does. -/
def withValue? (option : String) : Option (Arguments → String → Except ArgumentError Arguments) :=
  match option with
  | "-s" | "--set" => some fun a v => do return { a with edits := a.edits ++ [← readEdit v] }
  | "--sort" => some fun a v => do return { a with sort := some (← readSort v) }
  | "-c" | "--command" => some fun a v => .ok { a with formulas := a.formulas ++ [v] }
  | "-g" | "--get" => some fun a v => .ok { a with shown := a.shown ++ [v] }
  | "-e" | "--explain" => some fun a v => .ok { a with explained := a.explained ++ [v] }
  | "-o" | "--output" => some fun a v => .ok { a with output := some v }
  | "--config" => some fun a v => .ok { a with config := some v }
  | _ => none

/-- The options without a value. The ones that ask for more log lines change nothing else. -/
def withoutValue? (option : String) : Option (Arguments → Arguments) :=
  match option with
  | "-h" | "--help" => some fun a => { a with help := true }
  | "--demo" => some fun a => { a with demo := true }
  | "-v" | "--verbose" | "-vv" => some id
  | _ => none

/-- Whether a word has the form of an option. A dash alone is the name of a file. -/
def isOption (word : String) : Bool :=
  match word.toList with
  | '-' :: _ :: _ => true
  | _ => false

/-- A word that is no known option: the file to load, of which there is one at most. -/
def readOther (a : Arguments) (word : String) : Except ArgumentError Arguments :=
  if isOption word then .error (.unknownOption word)
  else if a.file.isSome then .error (.unexpectedArgument word)
  else .ok { a with file := some word }

/-- Read the words that follow those of `a`. -/
def readFrom (a : Arguments) : List String → Except ArgumentError Arguments
  | [] => if a.demo && a.file.isSome then .error .demoWithFile else .ok a
  | word :: rest =>
    match withoutValue? word with
    | some set => readFrom (set a) rest
    | none =>
      match withValue? word, rest with
      | some _, [] => .error (.missingValue word)
      | some set, value :: rest =>
        match set a value with
        | .ok a => readFrom a rest
        | .error e => .error e
      | none, rest =>
        match readOther a word with
        | .ok a => readFrom a rest
        | .error e => .error e

def read (words : List String) : Except ArgumentError Arguments := readFrom start words

end Arguments

/-- A name filled up with blanks to the width of its column. -/
def padded (width : Nat) (s : String) : String :=
  s ++ String.ofList (List.replicate (width - s.length) ' ')

def usageLines : List String := [
  "Usage: gridcalc [OPTIONS] [FILE]",
  "",
  "Arguments:",
  "  [FILE]                    CSV file to load",
  "",
  "Options:",
  "  --demo                    Load the built-in Budget Calculator sheet",
  "  -s, --set <ADDR=INPUT>    Edit a cell, e.g. B3=500 or C1==A1*2 (can be repeated)",
  "  --sort <COL[:desc]>       Sort the data rows by a column, e.g. B or B:desc",
  "  -c, --command <FORMULA>   Evaluate a formula against the sheet and print it",
  "  -g, --get <ADDR>          Print a cell's value (can be repeated)",
  "  -e, --explain <ADDR>      Print a cell's evaluation trace (can be repeated)",
  "  -o, --output <FILE>       Export the sheet to CSV",
  "  --config <FILE>           Config file (default: config.toml in the user config dir)",
  "  -v, --verbose             More logging on stderr (-vv for trace)",
  "  -h, --help                Print help",
  "",
  "Functions:"] ++
    Builtin.catalogue.map fun entry => "  " ++ padded 10 entry.name ++ entry.description

def unlines (lines : List String) : String := String.join (lines.map (· ++ "\n"))

def usage : String := unlines usageLines

end Recalc.CommandLine
