/-!
# The surroundings of the program

A `Host` is what the program needs of the system it runs on : files to read and write whole, and two
channels to print to. The program is written against it, and runs on any.
-/

namespace MiniC.CommandLine

/-- Why a file cannot be read or written. -/
inductive FileError where
  | notFound
  | notDirectory
  | isDirectory
  /-- The bytes of the file are no text. -/
  | notText
  /-- Another reason, in the words of the system. -/
  | other (reason : String)
deriving DecidableEq, Inhabited, Repr

namespace FileError

/-- The reason in words. -/
def text : FileError → String
  | notFound => "No such file or directory (os error 2)"
  | notDirectory => "Not a directory (os error 20)"
  | isDirectory => "Is a directory (os error 21)"
  | notText => "stream did not contain valid UTF-8"
  | other reason => reason

end FileError

/-- What the program needs of its surroundings. -/
structure Host (m : Type → Type) where
  /-- The bytes of the file at a path. -/
  read : String → m (Except FileError ByteArray)
  /-- Makes a text the content of the file at a path. -/
  write : String → String → m (Except FileError Unit)
  /-- Prints to the standard output. -/
  print : String → m Unit
  /-- Prints a line to the standard error. -/
  complain : String → m Unit

end MiniC.CommandLine
