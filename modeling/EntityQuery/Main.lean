/-
# The program

Connects the run of a command to the file system, the environment and the standard streams.
-/
import EntityQuery.CommandLine.Run

open EntityQuery.CommandLine

/-- The reason why a file cannot be read. -/
def readFault : IO.Error → String
  | .noFileOrDirectory _ code _ => "No such file or directory (os error " ++ toString code ++ ")"
  | .permissionDenied _ code _ => "Permission denied (os error " ++ toString code ++ ")"
  | .inappropriateType _ code _ => "Is a directory (os error " ++ toString code ++ ")"
  | error => toString error

/-- The content of a file, or the reason why it cannot be read. -/
def readText (path : String) : IO (Except String String) := do
  try
    return .ok (← IO.FS.readFile path)
  catch error =>
    return .error (readFault error)

/-- Whether there is a file. -/
def isPresent (path : String) : IO Bool := do
  (← IO.FS.realPath path).pathExists

/-- The configuration file of the user. -/
def userConfigFile : IO (Option String) := do
  match ← IO.getEnv "XDG_CONFIG_HOME" with
  | some directory =>
    if directory.startsWith "/" then return some (directory ++ "/liftql/liftql.toml")
  | none => pure ()
  match ← IO.getEnv "HOME" with
  | some home => return some (home ++ "/.config/liftql/liftql.toml")
  | none => return none

/-- Runs the program on its arguments. -/
def main (arguments : List String) : IO UInt32 := do
  let host : Host IO := {
    read := readText
    present := isPresent
    setting := ← IO.getEnv configVariable
    userConfig := ← userConfigFile }
  let outcome ← run host arguments
  (← IO.getStdout).putStr outcome.output
  (← IO.getStderr).putStr outcome.errors
  return outcome.code
