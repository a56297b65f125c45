/-!
# The layout of the screen

The last row of the screen is the status bar. Above it are two columns of the same width, each with
two panes : on the left the source over the diagnostics, on the right the symbols over the tree. A
`Layout` has the sizes, and `Layout.ofSize` shares a screen out by percentages.
-/

namespace MiniC.Viewer

/-- A part of the screen. -/
inductive Pane where
  | source
  | symbols
  | tree
  | diagnostics
deriving DecidableEq, Inhabited, Repr

namespace Pane

/-- The pane that is focused behind this one : down the left column, then down the right. -/
def next : Pane → Pane
  | source => diagnostics
  | diagnostics => symbols
  | symbols => tree
  | tree => source

end Pane

/-- The sizes of the parts of a screen. -/
structure Layout where
  /-- The width of the left column. -/
  left : Nat
  /-- The width of the right column. -/
  right : Nat
  /-- The heights of the panes. -/
  height : Pane → Nat
  /-- The height of the status bar. -/
  bar : Nat
  /-- The width of the left part of the status bar. -/
  message : Nat
  /-- The width of the right part of the status bar. -/
  help : Nat

/-- That many hundredths of `n`, to the nearest. -/
def share (percent n : Nat) : Nat := (2 * n * percent + 100) / 200

namespace Layout

/-- The layout of a screen of `width` cells by `height` rows. -/
def ofSize (width height : Nat) : Layout :=
  let body := height - 1
  { left := share 50 width
    right := width - share 50 width
    height := fun
      | .source => share 65 body
      | .diagnostics => body - share 65 body
      | .symbols => share 40 body
      | .tree => body - share 40 body
    bar := min 1 height
    message := share 60 width
    help := width - share 60 width }

/-- The number of entries a pane shows : the rows inside its border but for the header of the
symbols, and never none. -/
def visible (l : Layout) (pane : Pane) : Nat :=
  max 1 (l.height pane - 2 - if pane = .symbols then 1 else 0)

end Layout

theorem share_le {percent : Nat} (h : percent ≤ 100) (n : Nat) : share percent n ≤ n := by
  have : 2 * n * percent ≤ 2 * n * 100 := Nat.mul_le_mul_left _ h
  unfold share
  omega

end MiniC.Viewer
