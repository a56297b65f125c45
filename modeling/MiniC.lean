import MiniC.Analysis.InPlace
import MiniC.Main
import MiniC.Viewer.Screen
import MiniC.CommandLine.Directory
import MiniC.Proofs.Grammar.Parsing
import MiniC.Proofs.Grammar.ViablePrefix
import MiniC.Proofs.Outcome
import MiniC.Proofs.Report.Declarations
import MiniC.Proofs.Atomicity
import MiniC.Proofs.Postorder
import MiniC.Proofs.Token.Splitting
import MiniC.Proofs.Symbol.Environment
import MiniC.Proofs.Symbol.Bracket
import MiniC.Proofs.Symbol.Indexed
import MiniC.Proofs.Visibility
import MiniC.Proofs.Execution.Soundness
import MiniC.Proofs.Token.Printing
import MiniC.Proofs.Layout.Analysis
import MiniC.Proofs.Typing.Narrowing
import MiniC.Proofs.Division
import MiniC.Proofs.Compound
import MiniC.Proofs.Nesting
import MiniC.Proofs.Renaming.Analysis
import MiniC.Proofs.Continuation
import MiniC.Proofs.CommandLine
import MiniC.Proofs.Descent.Progress
import MiniC.Proofs.Viewer.Scrolling
import MiniC.Proofs.Viewer.Severity
import MiniC.Proofs.Viewer.Outline
import MiniC.Proofs.Preorder
import MiniC.Proofs.Reading
import MiniC.Proofs.Symbol.Lifecycle
import MiniC.Proofs.Report.LineOrder
import MiniC.Proofs.Tree.Assembly
import MiniC.Proofs.Tree.Levels
import MiniC.Proofs.Execution.Wraparound
import MiniC.Proofs.Report.Names
import MiniC.Proofs.Report.Layout
import MiniC.Proofs.Report.Columns
import MiniC.Proofs.Execution.Quotient
import MiniC.Proofs.Viewer.Highlighting
