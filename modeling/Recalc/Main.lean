import Recalc.CommandLine.Session

namespace Recalc.CommandLine

/-- The causes that have numbers in the system. -/
def numbered : List (UInt32 × FileError) :=
  [(2, .notFound), (20, .notDirectory), (21, .isDirectory), (36, .nameTooLong)]

/-- The cause of a failed file operation. Its number may come with its sign changed. -/
def fileError (e : IO.Error) : FileError :=
  let number? : Option UInt32 := match e with
    | .noFileOrDirectory _ n _ | .inappropriateType _ n _ | .invalidArgument _ n _ => some n
    | _ => none
  let known := number?.bind fun n => numbered.find? fun entry => n = entry.1 || n = 0 - entry.1
  (known.map (·.2)).getD (.other (toString e))

def machineAccess : FileAccess IO where
  read path := do
    try return .ok (← IO.FS.readFile path)
    catch e => return .error (fileError e)
  write path text := do
    try
      IO.FS.writeFile path text
      return .ok ()
    catch e => return .error (fileError e)

/-- Where a user keeps the settings: below the directory for settings, if its path is absolute, or
else below the home directory. -/
def usualSettings : IO (Option String) := do
  let settings := (← IO.getEnv "XDG_CONFIG_HOME").filter fun path => path.toList.head? = some '/'
  let home := (← IO.getEnv "HOME").filter fun path => path ≠ ""
  return (settings <|> home.map (· ++ "/.config")).map (· ++ "/gridcalc/config.toml")

end Recalc.CommandLine

open Recalc.CommandLine in
def main (words : List String) : IO UInt32 := do
  let outcome ← Session.run machineAccess (← usualSettings) words
  IO.print outcome.output
  IO.eprint outcome.complaintLine
  if outcome.showsUsage then IO.eprint usage
  return outcome.status.toUInt32
