import MiniC.Analysis
import MiniC.CommandLine.Host
import MiniC.CommandLine.Options

/-!
# The command line

`run` is the whole program on a `Host` : it reads the source file, prints what the analysis finds
out, and writes the tree to a file if there is one and it is asked for. The status is that of the
analysis, one if a file cannot be read or written, and two if the arguments make no sense.
-/

namespace MiniC.CommandLine

/-- What the program prints about an analysis : its diagnostics, its report, and its tree or why
there is none. -/
def printed (a : Analysis) : String :=
  let tree :=
    match a.preorder, a.failure with
    | some text, _ => "Preorder traversal of the syntax tree:\n" ++ text ++ "\n"
    | none, some failure => "No syntax tree: " ++ failure.text ++ "\n"
    | none, none => "No syntax tree\n"
  String.join (a.diagnostics.map (·.text ++ "\n")) ++ "\n" ++ a.report.text ++ "\n" ++ tree

/-- The file that is asked for, if there is a tree, and its content. -/
def artifact? (options : Options) (a : Analysis) : Option (String × String) :=
  match options.output, a.preorder with
  | some path, some text => some (path, text ++ "\n")
  | _, _ => none

/-- The line that says why a file cannot be read or written. -/
def fatal (verb path : String) (e : FileError) : String := s!"Error: cannot {verb} '{path}': {e.text}"

/-- How the program is called. -/
def usage : String := "usage: minic FILE [--output PATH | --no-artifact]"

/-- The text of a file. -/
def decode (bytes : ByteArray) : Except FileError String :=
  match String.fromUTF8? bytes with
  | some text => .ok text
  | none => .error .notText

variable {m : Type → Type} [Monad m]

/-- Prints and writes what an analysis finds out, and answers with the status. -/
def conclude (host : Host m) (options : Options) (a : Analysis) : m Nat := do
  host.print (printed a)
  match artifact? options a with
  | none => return a.exitCode
  | some (path, content) =>
    match ← host.write path content with
    | .ok () => return a.exitCode
    | .error e => do
      host.complain (fatal "write" path e)
      return 1

/-- The program with its arguments. -/
def run (host : Host m) (args : List String) : m Nat := do
  match Options.parse? args with
  | none => do
    host.complain usage
    return 2
  | some options =>
    match (← host.read options.file) >>= decode with
    | .ok source => conclude host options (analyze source)
    | .error e => do
      host.complain (fatal "read" options.file e)
      return 1

end MiniC.CommandLine
