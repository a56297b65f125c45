/-!
# The arguments of the program

`Options.parse?` reads the arguments. One of them names the source file. `--output PATH`, or
`--output=PATH`, names the file for the tree, and `--no-artifact` asks for no such file; nothing may
be given twice, and these two not together. Behind `--` an argument that starts with a dash is a
file like any other. No path is empty.
-/

namespace MiniC.CommandLine

/-- What the arguments ask for. -/
structure Options where
  /-- The source file. -/
  file : String
  /-- The file for the tree, if it is to be written. -/
  output : Option String
deriving DecidableEq, Inhabited, Repr

/-- What the arguments read so far ask for. -/
structure Given where
  file : Option String
  output : Option String
  noArtifact : Bool
deriving DecidableEq, Inhabited, Repr

namespace Given

/-- Before the first argument. -/
def nothing : Given := ⟨none, none, false⟩

/-- The source file is given, for the first time. -/
def withFile? (g : Given) (path : String) : Option Given :=
  if path = "" ∨ g.file.isSome then none else some { g with file := path }

/-- The file for the tree is given, for the first time. -/
def withOutput? (g : Given) (path : String) : Option Given :=
  if path = "" ∨ g.output.isSome then none else some { g with output := path }

/-- It is asked for no file for the tree, for the first time. -/
def withoutArtifact? (g : Given) : Option Given :=
  if g.noArtifact then none else some { g with noArtifact := true }

end Given

/-- Whether an argument is an option, and not a path : it starts with a dash and goes on. -/
def isOption (arg : String) : Bool :=
  match arg.toList with
  | '-' :: _ :: _ => true
  | _ => false

/-- The text behind `start` at the start of an argument. -/
def behind? (start arg : String) : Option String :=
  if start.toList.isPrefixOf arg.toList then
    some (String.ofList (arg.toList.drop start.length))
  else none

/-- Reads the arguments one after the other. -/
def readArguments (g : Given) : List String → Option Given
  | [] => some g
  | arg :: args =>
    if arg = "--" then args.foldlM Given.withFile? g
    else if arg = "--no-artifact" then
      g.withoutArtifact?.bind fun g => readArguments g args
    else if arg = "--output" then
      match args with
      | [] => none
      | path :: args =>
        if isOption path then none else (g.withOutput? path).bind fun g => readArguments g args
    else
      match behind? "--output=" arg with
      | some path => (g.withOutput? path).bind fun g => readArguments g args
      | none =>
        if isOption arg then none else (g.withFile? arg).bind fun g => readArguments g args

namespace Options

/-- Where the tree is written when the arguments do not say. -/
def defaultOutput : String := "ast_output.txt"

/-- What the arguments ask for, or nothing if they make no sense. -/
def parse? (args : List String) : Option Options := do
  let g ← readArguments .nothing args
  let file ← g.file
  if g.noArtifact then
    if g.output.isSome then none else return ⟨file, none⟩
  else return ⟨file, some (g.output.getD defaultOutput)⟩

end Options

end MiniC.CommandLine
