import Std.Data.ExtTreeMap

namespace Recalc.CommandLine

inductive FileError
  | notFound
  | notDirectory
  | isDirectory
  | nameTooLong
  | other (text : String)
deriving DecidableEq, Repr

def FileError.message : FileError → String
  | notFound => "No such file or directory (os error 2)"
  | notDirectory => "Not a directory (os error 20)"
  | isDirectory => "Is a directory (os error 21)"
  | nameTooLong => "File name too long (os error 36)"
  | other text => text

/-- Files under their names, in which slashes part the directories. Of what lies outside the folder
only the files that have been written there are known. -/
structure Folder where
  files : Std.ExtTreeMap String String

/-- A path as the names that it leads through and the one that it leads to. -/
structure Path where
  parents : List String
  last : String
  /-- Whether slashes stand behind the last name, which is that of a directory then. -/
  slashed : Bool
deriving DecidableEq, Repr

namespace Path

def nameLimit : Nat := 255

def lengthLimit : Nat := 4095

def ofText (text : String) : Except FileError Path :=
  let names := (text.toList.splitOn '/').filter (· ≠ []) |>.map String.ofList
  if lengthLimit < text.utf8ByteSize then .error .nameTooLong
  else if text.toList.head? = some '/' then .error .notFound
  else
    match names.getLast? with
    | none => .error .notFound
    | some last => .ok ⟨names.dropLast, last, text.toList.getLast? = some '/'⟩

/-- Whether the last name stands for a directory that has been passed already. -/
def endsInDots (p : Path) : Bool := p.last == "." || p.last == ".."

end Path

namespace Folder

/-- A place, as the names on the way to it from the folder. The way to a place outside the folder
begins with two dots for each directory that it leaves. -/
abbrev Route := List String

/-- Whether the way only leaves directories. The place is a directory around the folder then, or
the folder. -/
def isAround (r : Route) : Bool := r.all (· == "..")

def name (r : Route) : String := "/".intercalate r

def isFile (f : Folder) (r : Route) : Bool := name r ∈ f.files

def isDirectory (f : Folder) (r : Route) : Bool :=
  isAround r || f.files.keys.any fun n => (name r ++ "/").isPrefixOf n

def enter (f : Folder) (place : Route) (last : String) : Except FileError Route :=
  let inside := place ++ [last]
  if last = "." then .ok place
  else if last = ".." then .ok (if isAround place then inside else place.dropLast)
  else if Path.nameLimit < last.utf8ByteSize then .error .nameTooLong
  else if f.isDirectory inside then .ok inside
  else if f.isFile inside then .error .notDirectory
  else .error .notFound

def directoryOf (f : Folder) (p : Path) : Except FileError Route := p.parents.foldlM f.enter []

def read (f : Folder) (path : String) : Except FileError String := do
  let p ← Path.ofText path
  let place ← f.directoryOf p
  match if p.slashed then none else f.files[name (place ++ [p.last])]? with
  | some text => .ok text
  | none => do
    let _ ← f.enter place p.last
    .error .isDirectory

def write (f : Folder) (path text : String) : Except FileError Folder := do
  let p ← Path.ofText path
  let place ← f.directoryOf p
  let target := place ++ [p.last]
  if p.slashed || p.endsInDots then .error .isDirectory
  else if Path.nameLimit < p.last.utf8ByteSize then .error .nameTooLong
  else if f.isDirectory target then .error .isDirectory
  else .ok ⟨f.files.insert (name target) text⟩

end Folder

/-- How a program gets at files. -/
structure FileAccess (m : Type → Type) where
  read : String → m (Except FileError String)
  write : String → String → m (Except FileError Unit)

/-- The files of a folder that is kept as a state. -/
def Folder.access : FileAccess (StateM Folder) where
  read path := do return (← get).read path
  write path text := do
    match (← get).write path text with
    | .ok f =>
      set f
      return .ok ()
    | .error e => return .error e

end Recalc.CommandLine
