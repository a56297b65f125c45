import MiniC.Analysis.Analyzer
import MiniC.Grammar.Parse
import MiniC.Report
import MiniC.Text.Search

/-!
# The analysis of a program

An `Analysis` is what is found out about a program : its tree, if it has one, the report on its
symbols, the diagnostics, and the `Failure` that cut the analysis short or left it without a tree.

`EventStream.analyze` applies the events of a stream in order. An event that fails ends the analysis
without a tree. A syntax error behind the events is reported as a diagnostic. At the end there has
to be exactly one tree. `analyze` is the analysis of a source text.
-/

namespace MiniC

/-- What cuts an analysis short, or leaves it without a tree. -/
inductive Failure where
  | syntaxError (error : SyntaxError)
  | stack (error : StackError)
deriving DecidableEq, Inhabited

namespace Failure

/-- The failure in words. -/
def text : Failure → String
  | syntaxError error => error.text
  | stack error => error.text

/-- Whether the trees did not fit together. -/
def isStackError : Failure → Bool
  | syntaxError _ => false
  | stack _ => true

end Failure

/-- What is found out about a program. -/
structure Analysis where
  root : Option Tree
  report : Report
  diagnostics : List Diagnostic
  failure : Option Failure
deriving DecidableEq, Inhabited

namespace Analysis

/-- The text form of the tree. -/
def preorder (a : Analysis) : Option String := a.root.map Tree.preorder

/-- The number of errors among the diagnostics. -/
def errorCount (a : Analysis) : Nat := a.diagnostics.countP Diagnostic.isError

/-- The number of warnings among the diagnostics. -/
def warningCount (a : Analysis) : Nat := a.diagnostics.length - a.errorCount

/-- The diagnostics whose words contain `needle`. -/
def findDiagnostics (a : Analysis) (needle : String) : List Diagnostic :=
  a.diagnostics.filter fun d => Text.contains needle.toList d.message.toList

/-- The status of the analysis : one if there is an error or the trees did not fit together, else
zero. -/
def exitCode (a : Analysis) : Nat :=
  if 0 < a.errorCount ∨ a.failure.any Failure.isStackError then 1 else 0

end Analysis

namespace Analyzer

/-- The analysis at the end of the events, which `failure` may have cut short. -/
def finish (a : Analyzer) (failure : Option Failure) : Analysis :=
  match a.trees.root? with
  | .ok root => ⟨some (root.withLevels 1), a.symbols.report, a.diagnostics, failure⟩
  | .error e => ⟨none, a.symbols.report, a.diagnostics, some (failure.getD (.stack e))⟩

/-- The analysis at an event that failed. -/
def abort (a : Analyzer) (error : StackError) : Analysis :=
  ⟨none, a.symbols.report, a.diagnostics, some (.stack error)⟩

/-- The analysis from the state `a` on : of the events, and then of the syntax error behind them, if
there is one. -/
def run (a : Analyzer) (events : List Event) (failure : Option SyntaxError) : Analysis :=
  match events with
  | [] =>
    match failure with
    | none => a.finish none
    | some e => (a.report e.location.line (.syntaxError e.fault)).finish (some (.syntaxError e))
  | event :: events =>
    match a.apply event with
    | .ok b => b.run events failure
    | .error e => a.abort e

end Analyzer

/-- The analysis of a stream of events. -/
def EventStream.analyze (s : EventStream) : Analysis := Analyzer.start.run s.events s.failure

/-- The analysis of a source text. -/
def analyze (source : String) : Analysis := (parse source).analyze

end MiniC
