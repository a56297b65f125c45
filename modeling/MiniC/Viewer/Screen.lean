import MiniC.Viewer.Highlight
import MiniC.Viewer.State

/-!
# Drawing the viewer

`screen` is what the viewer shows on a screen of a given size, row by row : the four panes with
their borders, and the status bar. Each pane shows the entries from its offset on, as many as fit.
-/

namespace MiniC.Viewer

/-- The entries that a pane shows : `visible` of them from the offset on. -/
def window {α : Type} (offset visible : Nat) (entries : List α) : List α :=
  (entries.drop offset).take visible

/-- A pane with nothing to list : one line of text, in a colour. -/
def note (title text : String) (color : Color) (focused : Bool) (width height : Nat) : List Row :=
  boxed title (Theme.border focused) (.colored color) width height [(Span.styled text .plain).cells]

/-! ## The source pane -/

/-- A number right behind enough blanks to make it four characters long. -/
def lineNumber (n : Nat) : List Char := Decimal.paddedLeft ' ' 4 (Decimal.digits n)

/-- The sign of a mark beside its line. -/
def gutter : Option Mark → Span
  | none => .styled "  " .plain
  | some m =>
    let style := (Style.colored (Theme.severity m.severity)).bolded
    match m.severity with
    | .error => .styled "✗ " style
    | .warning => .styled "! " style

/-- The line with number `n`, with its mark. -/
def sourceRow (marks : List Mark) (n : Nat) (line : List Char) : Row :=
  Row.ofSpans (⟨lineNumber n ++ [' '], .colored Theme.muted⟩ ::
    gutter (marks.find? (·.line = n)) :: highlight line)

/-- The source text with line numbers, marks and highlighting. -/
def sourcePane (v : Viewer) (layout : Layout) : List Row :=
  let numbered := v.lines.zipIdx 1
  let shown := window v.scroll.source (layout.visible .source) numbered
  boxed " Source Code " (Theme.border (v.focus = .source)) .plain layout.left
    (layout.height .source) (shown.map fun (line, n) => sourceRow v.marks n line)

/-! ## The diagnostics pane -/

/-- A diagnostic in the colour of its severity. -/
def diagnosticRow (d : Diagnostic) : Row :=
  Row.ofSpans [.styled " " .plain, .styled s!"Line:{d.line}: " (.colored Theme.muted),
    .styled s!"{d.severity.name}: " (Style.colored (Theme.severity d.severity)).bolded,
    .styled d.message (.colored Theme.text)]

/-- The diagnostics in the order in which they were reported. -/
def diagnosticsPane (v : Viewer) (layout : Layout) : List Row :=
  let focused : Bool := v.focus = .diagnostics
  let height := layout.height .diagnostics
  let title := " Diagnostics "
  if v.analysis.diagnostics.isEmpty then
    note title "(no diagnostics)" Theme.ok focused layout.left height
  else
    let shown := window v.scroll.diagnostics (layout.visible .diagnostics) v.analysis.diagnostics
    boxed title (Theme.border focused) .plain layout.left height (shown.map diagnosticRow)

/-! ## The symbols pane -/

/-- The colour of a kind of symbol. -/
def kindColor : SymbolKind → Color
  | .function => Theme.function
  | .param => Theme.param
  | .identifier => Theme.text

/-- The styles of the cells of a row of the report. -/
def cellStyles (kind : SymbolKind) : List Style :=
  [.colored (kindColor kind), .plain, .colored Theme.typeName, .plain, .plain,
    .colored Theme.literal]

/-- Cells in columns of the given widths, two blanks apart. -/
def tableRow (widths : List Nat) (cells : List String) (styles : List Style) : Row :=
  let columns := (widths.zip (cells.zip styles)).map fun (width, cell, style) =>
    (Span.styled cell .plain).cells.fit style width
  (Span.styled "  " .plain).cells.intercalate columns

/-- The rows of the report under their header. -/
def symbolsPane (v : Viewer) (layout : Layout) : List Row :=
  let focused : Bool := v.focus = .symbols
  let height := layout.height .symbols
  let title := " Symbol Table "
  let report := v.analysis.report
  if report.isEmpty then note title "(no symbols)" Theme.muted focused layout.right height
  else
    let widths := report.columnWidths
    let header := (tableRow widths Report.headers (Report.headers.map fun _ => .plain)).fit
      (Style.colored Theme.accent).bolded (layout.right - 2)
    let shown := window v.scroll.symbols (layout.visible .symbols) report.rows
    boxed title (Theme.border focused) .plain layout.right height
      (header :: shown.map fun r => tableRow widths r.cells (cellStyles r.kind))

/-! ## The tree pane -/

/-- A node behind a dot for each level; nodes with children stand out. -/
def treeRow (r : OutlineRow) : Row :=
  let style :=
    if r.hasChildren then (Style.colored Theme.keyword).bolded else .colored Theme.text
  Row.ofSpans [⟨(List.replicate (r.indent / 2) ['·', ' ']).flatten, .colored Theme.muted⟩,
    ⟨r.label, style⟩]

/-- The outline of the tree. -/
def treePane (v : Viewer) (layout : Layout) : List Row :=
  let focused : Bool := v.focus = .tree
  let height := layout.height .tree
  let title := " Syntax Tree "
  match v.outline with
  | none =>
    note title "(no tree: construction stack not balanced)" Theme.error focused layout.right height
  | some rows =>
    let shown := window v.scroll.tree (layout.visible .tree) rows
    boxed title (Theme.border focused) .plain layout.right height (shown.map treeRow)

/-! ## The status bar -/

/-- A text on a colour of its own. -/
def badge (text : String) (color : Color) : Span :=
  .styled text ((Style.colored .black).onto color).bolded

/-- The size of the tree, the counts of the diagnostics, and what became of the analysis. -/
def statusMessage (v : Viewer) : Row :=
  let a := v.analysis
  let tree :=
    match a.root with
    | some root =>
      badge s!" preorder {root.preorder.utf8ByteSize} chars, height {root.height} " Theme.accent
    | none => badge " no tree " Theme.error
  let errors :=
    badge s!" {a.errorCount} errors " (if 0 < a.errorCount then Theme.error else Theme.ok)
  Row.ofSpans [tree, .styled " " .plain, errors, .styled " " .plain,
    badge s!" {a.warningCount} warnings " Theme.warning, .styled " | " (.colored Theme.muted),
    .styled s!" {v.status} " (.colored Theme.text)]

/-- The keys and what they do. -/
def statusHelp : Row :=
  let key := (Style.colored .black).onto Theme.muted
  let does := Style.colored Theme.text
  let divider := [Span.styled "│" (.colored Theme.muted), .styled " " does]
  Row.ofSpans <| [.styled " ⇥ " key, .styled " focus " does] ++ divider ++
    [.styled " ↑/↓ " key, .styled " scroll " does] ++ divider ++
    [.styled "q" key, .styled " quit " does]

/-- The last row of the screen. -/
def statusBar (v : Viewer) (layout : Layout) : Row :=
  let base := Style.plain.onto Theme.bar
  (statusMessage v).fit base layout.message ++ statusHelp.fitRight base layout.help

/-! ## The screen -/

/-- What the viewer shows in a layout, row by row. The offsets are those of `drawn`. -/
def screen (v : Viewer) (layout : Layout) : List Row :=
  let left := sourcePane v layout ++ diagnosticsPane v layout
  let right := symbolsPane v layout ++ treePane v layout
  left.zipWith (· ++ ·) right ++ List.replicate layout.bar (statusBar v layout)

end MiniC.Viewer
