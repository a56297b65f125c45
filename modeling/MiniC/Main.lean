import MiniC.CommandLine

/-!
# The program

The command line on the files and channels of the system.
-/

namespace MiniC

open CommandLine

/-- The reason why an operation on a file failed. -/
def fileError : IO.Error → FileError
  | .noFileOrDirectory _ _ _ => .notFound
  | .inappropriateType _ code _ => if code = 21 then .isDirectory else .notDirectory
  | e => .other (toString e)

/-- Runs an operation on a file, and answers with the reason if it fails. -/
def attempt {α : Type} (act : IO α) : IO (Except FileError α) := do
  match ← act.toBaseIO with
  | .ok a => return .ok a
  | .error e => return .error (fileError e)

/-- The system as surroundings of the program. -/
def system : Host IO where
  read path := attempt (IO.FS.readBinFile path)
  write path content := attempt (IO.FS.writeFile path content)
  print text := IO.print text
  complain line := IO.eprintln line

end MiniC

def main (args : List String) : IO UInt32 := do
  return UInt32.ofNat (← MiniC.CommandLine.run MiniC.system args)
