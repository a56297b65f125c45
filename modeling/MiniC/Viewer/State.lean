import MiniC.Analysis
import MiniC.Text.Blank
import MiniC.Text.Lines
import MiniC.Viewer.Layout

/-!
# The state of the viewer

A `Viewer` shows a source text with its analysis. It knows which pane is focused, how far each pane
is scrolled, and whether it is to be left. `Viewer.press` is what a key does : it changes at most
the focus, the offset of the focused pane, or the wish to leave. `Viewer.drawn` is the state after
the viewer was drawn, which keeps every offset within what the pane has to show.
-/

namespace MiniC.Viewer

/-- A node of the tree as a line of the outline. -/
structure OutlineRow where
  indent : Nat
  label : List Char
  hasChildren : Bool
deriving DecidableEq, Inhabited, Repr

/-- The bytes of white space a line starts with. -/
def indentOf (line : List Char) : Nat :=
  ((line.takeWhile Text.isWhiteSpace).map Char.utf8Size).foldr (· + ·) 0

/-- The rows of indented lines. A row has children if the next one is indented deeper. -/
def outlineRows : List (List Char) → List OutlineRow
  | [] => []
  | line :: lines =>
    let deeper := lines.head?.any fun next => indentOf line < indentOf next
    ⟨indentOf line, Text.trimmedLeft line, deeper⟩ :: outlineRows lines

/-- A line with diagnostics, and the worst severity of them. -/
structure Mark where
  line : Nat
  severity : Severity
deriving DecidableEq, Inhabited, Repr

/-- The marks after one more diagnostic : an error makes the mark of its line an error. -/
def addMark : List Mark → Diagnostic → List Mark
  | [], d => [⟨d.line, d.severity⟩]
  | m :: marks, d =>
    if m.line = d.line then (if d.isError then { m with severity := .error } else m) :: marks
    else m :: addMark marks d

/-- The marks of diagnostics, in the order in which their lines were first reported. -/
def marksOf (diagnostics : List Diagnostic) : List Mark := diagnostics.foldl addMark []

/-- How far each pane is scrolled. -/
structure Scroll where
  source : Nat
  symbols : Nat
  tree : Nat
  diagnostics : Nat
deriving DecidableEq, Inhabited, Repr

namespace Scroll

/-- Every pane at its first entry. -/
def zero : Scroll := ⟨0, 0, 0, 0⟩

/-- The offset that no pane is scrolled beyond. -/
def limit : Nat := UInt64.size - 1

/-- How far a pane is scrolled. -/
def get (s : Scroll) : Pane → Nat
  | .source => s.source
  | .symbols => s.symbols
  | .tree => s.tree
  | .diagnostics => s.diagnostics

/-- The offsets with that of one pane changed. -/
def modify (s : Scroll) (pane : Pane) (f : Nat → Nat) : Scroll :=
  match pane with
  | .source => { s with source := f s.source }
  | .symbols => { s with symbols := f s.symbols }
  | .tree => { s with tree := f s.tree }
  | .diagnostics => { s with diagnostics := f s.diagnostics }

theorem get_modify (s : Scroll) (pane other : Pane) (f : Nat → Nat) :
    (s.modify pane f).get other = if other = pane then f (s.get pane) else s.get other := by
  cases pane <;> cases other <;> rfl

end Scroll

/-- A key that the viewer knows. -/
inductive Key where
  | tab
  | up
  | down
  | pageUp
  | pageDown
  | home
  | endKey
  | escape
  | char (c : Char)
  /-- A key that does nothing. -/
  | other
deriving DecidableEq, Inhabited, Repr

end Viewer

/-- A source text with its analysis, and how it is being looked at. -/
structure Viewer where
  source : String
  analysis : Analysis
  focus : Viewer.Pane
  scroll : Viewer.Scroll
  quit : Bool
deriving DecidableEq, Inhabited

namespace Viewer

/-- The viewer before the first key. -/
def ofAnalysis (source : String) (analysis : Analysis) : Viewer :=
  ⟨source, analysis, .source, .zero, false⟩

/-- The lines of the source text. -/
def lines (v : Viewer) : List (List Char) := Text.lines v.source.toList

/-- The rows of the outline, if there is a tree. -/
def outline (v : Viewer) : Option (List OutlineRow) :=
  v.analysis.root.map fun root => outlineRows (root.outline.map String.toList)

/-- The lines with diagnostics. -/
def marks (v : Viewer) : List Mark := marksOf v.analysis.diagnostics

/-- What became of the analysis, in words. -/
def status (v : Viewer) : String :=
  match v.analysis.failure with
  | some failure => failure.text
  | none => "Analysis complete"

/-- The viewer with the offset of the focused pane changed. -/
def scrolled (v : Viewer) (f : Nat → Nat) : Viewer :=
  { v with scroll := v.scroll.modify v.focus f }

/-- The viewer after a key. No offset goes below zero or beyond the limit. -/
def press (v : Viewer) : Key → Viewer
  | .tab => { v with focus := v.focus.next }
  | .up => v.scrolled (· - 1)
  | .down => v.scrolled fun n => min (n + 1) Scroll.limit
  | .pageUp => v.scrolled (· - 10)
  | .pageDown => v.scrolled fun n => min (n + 10) Scroll.limit
  | .home => v.scrolled fun _ => 0
  | .endKey => v.scrolled fun _ => Scroll.limit
  | .escape => { v with quit := true }
  | .char c => if c = 'q' ∨ c = 'Q' then { v with quit := true } else v
  | .other => v

/-- The number of entries of a pane, if it has a list to show. A source text always has one. -/
def entries? (v : Viewer) : Pane → Option Nat
  | .source => some v.lines.length
  | .symbols => if v.analysis.report.isEmpty then none else some v.analysis.report.rows.length
  | .tree => v.outline.map List.length
  | .diagnostics =>
    if v.analysis.diagnostics.isEmpty then none else some v.analysis.diagnostics.length

/-- The offset `n` brought back to where `visible` of `total` entries fill the pane, or to the first
entry if all of them fit. -/
def clamp (total visible n : Nat) : Nat := if visible < total then min n (total - visible) else 0

/-- The offset of a pane after it was drawn. A pane with nothing to show keeps its offset. -/
def clamped (v : Viewer) (layout : Layout) (pane : Pane) (n : Nat) : Nat :=
  match v.entries? pane with
  | some total => clamp total (layout.visible pane) n
  | none => n

/-- The viewer after it was drawn in a layout. -/
def drawn (v : Viewer) (layout : Layout) : Viewer :=
  { v with scroll :=
    { source := v.clamped layout .source v.scroll.source
      symbols := v.clamped layout .symbols v.scroll.symbols
      tree := v.clamped layout .tree v.scroll.tree
      diagnostics := v.clamped layout .diagnostics v.scroll.diagnostics } }

end Viewer

end MiniC
