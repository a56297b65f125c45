import MiniC.CommandLine

/-!
# Printing what is found when it is found

`CommandLine.run` prints all that an analysis finds out when the analysis is over. Here every
diagnostic is printed at once when it is reported, in the middle of the analysis, and only the
report and the tree are printed at its end. `runEchoing` is the program that works in this way.
-/

namespace MiniC.CommandLine

variable {m : Type → Type} [Monad m]

/-- Prints each diagnostic as a line. -/
def echo (host : Host m) (diagnostics : List Diagnostic) : m Unit :=
  diagnostics.forM fun d => host.print (d.text ++ "\n")

/-- The analysis from the state `a` on, of the events and then of the syntax error behind them. What
an event or the syntax error adds to the diagnostics is printed before the next event. -/
def analyzeEchoing (host : Host m) (a : Analyzer) (events : List Event)
    (failure : Option SyntaxError) : m Analysis :=
  match events with
  | [] =>
    match failure with
    | none => return a.finish none
    | some e => do
      let b := a.report e.location.line (.syntaxError e.fault)
      echo host (b.diagnostics.drop a.diagnostics.length)
      return b.finish (some (.syntaxError e))
  | event :: events =>
    match a.apply event with
    | .ok b => do
      echo host (b.diagnostics.drop a.diagnostics.length)
      analyzeEchoing host b events failure
    | .error e => return a.abort e

/-- The report, and the tree or why there is none. -/
def results (a : Analysis) : String :=
  let tree :=
    match a.root, a.failure with
    | some root, _ => "Preorder traversal of the syntax tree:\n" ++ root.preorder ++ "\n"
    | none, some failure => "No syntax tree: " ++ failure.text ++ "\n"
    | none, none => "No syntax tree\n"
  "\n" ++ a.report.text ++ "\n" ++ tree

/-- Writes the tree to the file that is asked for, and answers with the status. -/
def store (host : Host m) (options : Options) (a : Analysis) : m Nat := do
  match artifact? options a with
  | none => return a.exitCode
  | some (path, content) =>
    match ← host.write path content with
    | .ok () => return a.exitCode
    | .error e => do
      host.complain (fatal "write" path e)
      return 1

/-- The program with its arguments, printing each diagnostic when it is found. -/
def runEchoing (host : Host m) (args : List String) : m Nat := do
  match Options.parse? args with
  | none => do
    host.complain usage
    return 2
  | some options =>
    match (← host.read options.file) >>= decode with
    | .ok source => do
      let stream := parse source
      let a ← analyzeEchoing host .start stream.events stream.failure
      host.print (results a)
      store host options a
    | .error e => do
      host.complain (fatal "read" options.file e)
      return 1

end MiniC.CommandLine
