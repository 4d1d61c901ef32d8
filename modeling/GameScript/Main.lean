import GameScript.Command.Perform

/-!
# The program

Reads the arguments, the environment and the script, and prints the outcome.
-/

namespace GameScript.Command

/-- Prints an outcome and gives its exit code. -/
def Outcome.print (o : Outcome) : IO UInt32 := do
  (← IO.getStdout).putStr o.stdout
  (← IO.getStderr).putStr o.stderr
  return UInt32.ofNat o.code

/-- Why a file cannot be read, in the words of the system. -/
def readFailure : IO.Error → String
  | .noFileOrDirectory _ _ _ => "No such file or directory (os error 2)"
  | .permissionDenied _ _ _ => "Permission denied (os error 13)"
  | .inappropriateType _ _ _ => "Is a directory (os error 21)"
  | e => toString e

/-- The text of a file, or why it cannot be read. -/
def readScript (path : String) : IO (Except String String) := do
  try
    let bytes ← IO.FS.readBinFile path
    match String.fromUTF8? bytes with
    | some text => return .ok text
    | none => return .error "stream did not contain valid UTF-8"
  catch e => return .error (readFailure e)

end GameScript.Command

open GameScript.Command in
/-- Runs the program. -/
def main (arguments : List String) : IO UInt32 := do
  let color := showsColor (← IO.getEnv "NO_COLOR").isSome (← IO.getEnv "FORCE_COLOR").isSome
  match request color arguments with
  | .answer outcome => outcome.print
  | .script task path options =>
    match ← readScript path with
    | .error reason => (unreadable color path reason).print
    | .ok source => (perform color task path source options).print
