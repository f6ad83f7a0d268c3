import ReactiveTemplate.Command.Basic

/-!
# The program

Reads files from the disk, and writes what the command says.
-/

namespace ReactiveTemplate.Command

/-- Why a file cannot be read. -/
def readFault : IO.Error → String
  | .noFileOrDirectory _ _ _ => "No such file or directory (os error 2)"
  | e => toString e

/-- The text of a file on the disk. -/
def diskText (name : String) : IO (Except String String) := do
  try
    pure (.ok (← IO.FS.readFile name))
  catch e =>
    pure (.error (readFault e))

end ReactiveTemplate.Command

/-- Runs the command line. -/
def main (arguments : List String) : IO UInt32 := do
  let outcome ← ReactiveTemplate.Command.run ReactiveTemplate.Command.diskText arguments
  IO.print outcome.output
  IO.eprint outcome.errors
  pure outcome.status.toUInt32
