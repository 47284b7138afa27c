import Recalc.CommandLine.Arguments
import Recalc.CommandLine.Folder
import Recalc.CommandLine.Settings
import Recalc.Csv.Export
import Recalc.Csv.Import
import Recalc.Document.Edit
import Recalc.Sheet.Budget

namespace Recalc.CommandLine

inductive SessionError
  | loadFile (path : String) (e : FileError)
  | loadSheet (path : String) (e : EditError)
  | edit (address : String) (e : EditError)
  | sort (e : EditError)
  | address (text : String)
  | writeFile (path : String) (e : FileError)

/-- A file error names its cause twice: once for the operation and once for the system. -/
def fileMessage (e : FileError) : String := "IO error: " ++ e.message ++ ": " ++ e.message

def SessionError.message : SessionError → String
  | loadFile path e => "Failed to load " ++ path ++ ": " ++ fileMessage e
  | loadSheet path e => "Failed to load " ++ path ++ ": " ++ e.message
  | edit place e => "Failed to set " ++ place ++ ": " ++ e.message
  | sort e => "Sort failed: " ++ e.message
  | address text => (ReadError.invalidAddress text).message
  | writeFile path e => "Failed to write " ++ path ++ ": " ++ fileMessage e

/-- How a run of the program ends. -/
structure Outcome where
  status : UInt8
  output : String
  /-- The last line for the user, if something went wrong. -/
  complaint : Option String
  /-- Whether the usage text follows. -/
  showsUsage : Bool

namespace Outcome

def success (output : String) : Outcome := ⟨0, output, none, false⟩

def failure (output : String) (e : SessionError) : Outcome := ⟨1, output, some e.message, false⟩

def complaintLine (o : Outcome) : String :=
  match o.complaint with
  | some text => "Error: " ++ text ++ "\n"
  | none => ""

end Outcome

namespace Session

/-- A file that cannot be read or does not have the right form leaves all as it is by default. -/
def settingsOf (file : Except FileError String) : Settings :=
  match file with
  | .ok text => (Settings.read? text).getD .standard
  | .error _ => .standard

def sheetOf (path : String) (s : Settings) (file : Except FileError String) :
    Except SessionError Sheet :=
  match file with
  | .ok text => (Sheet.ofCsv text path path s.rows s.cols).mapError (.loadSheet path)
  | .error e => .error (.loadFile path e)

/-- Type the inputs into their cells, one after another. -/
def enter (d : Document) : List (String × String) → Except SessionError Document
  | [] => .ok d
  | (address, input) :: rest => do
    let (d, _) ← (d.apply (Edit.ofInput address input)).mapError (.edit address)
    enter d rest

def prepare (a : Arguments) (d : Document) : Except SessionError Document := do
  let d ← enter d a.edits
  match a.sort.bind (·.resolve d.sheet) with
  | some rows => (d.sort rows).mapError .sort
  | none => .ok d

def explain (d : Document) (a : Address) : String :=
  let evaluation := d.evaluateCell a true
  let input := ((d.sheet.get? a).map Cell.inputText).getD ""
  let steps := (evaluation.explain.getD []).map fun s => "  " ++ s.expression ++ " = " ++ s.result
  let shown := match evaluation.outcome with
    | .ok _ => "  => " ++ evaluation.display
    | .error f => "  => " ++ evaluation.display ++ " (" ++ f.message ++ ")"
  unlines ((a.text ++ ": " ++ input) :: steps ++ [shown])

/-- Print for one address after another, up to the first that is none. -/
def printEach (print : Address → String) : List String → String × Option SessionError
  | [] => ("", none)
  | text :: rest =>
    match Reference.ofText? text with
    | none => ("", some (.address text))
    | some r =>
      let (later, stopped) := printEach print rest
      (print r.address ++ later, stopped)

/-- What is printed about the document, and why not all of it, if something stands against it. -/
def report (a : Arguments) (d : Document) : String × Option SessionError :=
  let formulas := unlines (a.formulas.map fun f => (d.evaluateFormula f false).display)
  match printEach (fun c => d.display c ++ "\n") a.shown with
  | (shown, some e) => (formulas ++ shown, some e)
  | (shown, none) =>
    let (explained, stopped) := printEach (explain d) a.explained
    (formulas ++ shown ++ explained, stopped)

variable {m : Type → Type} [Monad m]

/-- The settings in force: those of the named file, or of the usual one. -/
def loadSettings (access : FileAccess m) (path : Option String) : m Settings := do
  match path with
  | some path => return settingsOf (← access.read path)
  | none => return .standard

def loadSheet (access : FileAccess m) (a : Arguments) (s : Settings) :
    m (Except SessionError Sheet) := do
  if a.demo then return .ok Budget.sheet
  else
    match a.file with
    | some path => return sheetOf path s (← access.read path)
    | none => return .ok (Sheet.empty "sheet-1" "Sheet 1" s.rows s.cols)

/-- Print what is asked for, and write the sheet where it is to be written. -/
def finish (access : FileAccess m) (a : Arguments) (d : Document) : m Outcome := do
  match report a d with
  | (text, some e) => return .failure text e
  | (text, none) =>
    match a.output with
    | some path =>
      match ← access.write path (d.toCsv ++ "\n") with
      | .ok () => return .success text
      | .error e => return .failure text (.writeFile path e)
    | none => return .success (if a.printsSheet then text ++ d.toCsv ++ "\n" else text)

def perform (access : FileAccess m) (usualSettings : Option String) (a : Arguments) :
    m Outcome := do
  let settings ← loadSettings access (a.config <|> usualSettings)
  match ← loadSheet access a settings with
  | .error e => return .failure "" e
  | .ok sheet =>
    match prepare a (Document.load sheet settings.policy) with
    | .error e => return .failure "" e
    | .ok d => finish access a d

def run (access : FileAccess m) (usualSettings : Option String) (words : List String) :
    m Outcome := do
  match Arguments.read words with
  | .error e => return ⟨2, "", some e.message, true⟩
  | .ok a => if a.help then return ⟨0, "", none, true⟩ else perform access usualSettings a

end Session

end Recalc.CommandLine
