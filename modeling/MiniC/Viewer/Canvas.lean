import MiniC.Viewer.Style

/-!
# Rows of cells

What is drawn is a list of rows, and a row is a list of cells. `fit` gives a row its width : what is
too long is cut off, and what is too short goes on with blanks. `boxed` draws a border with a title
around rows.
-/

namespace MiniC.Viewer

/-- A character on the screen. -/
structure Cell where
  char : Char
  style : Style
deriving DecidableEq, Inhabited, Repr

/-- The cells of one line, from left to right. -/
abbrev Row := List Cell

/-- A text in one style. -/
structure Span where
  text : List Char
  style : Style
deriving DecidableEq, Inhabited, Repr

namespace Span

/-- A text in a style. -/
def styled (text : String) (style : Style) : Span := ⟨text.toList, style⟩

/-- The cells of a text. -/
def cells (s : Span) : Row := s.text.map fun c => ⟨c, s.style⟩

end Span

namespace Row

/-- The cells of texts, one behind the other. -/
def ofSpans (spans : List Span) : Row := spans.flatMap Span.cells

/-- A row of `width` cells over the style `base`. -/
def fit (base : Style) (width : Nat) (row : Row) : Row :=
  (row.take width).map (fun c => { c with style := c.style.above base }) ++
    List.replicate (width - row.length) ⟨' ', base⟩

/-- A row of `width` cells over the style `base`, with the blanks on the left. -/
def fitRight (base : Style) (width : Nat) (row : Row) : Row :=
  List.replicate (width - row.length) ⟨' ', base⟩ ++
    (row.take width).map fun c => { c with style := c.style.above base }

/-- The characters of a row. -/
def text (row : Row) : List Char := row.map Cell.char

/-- The texts of a row that are in one style each, as long as can be. -/
def runs (row : Row) : List Span :=
  (row.splitBy fun a b => a.style = b.style).filterMap fun cells =>
    cells.head?.map fun c => ⟨cells.map Cell.char, c.style⟩

theorem length_fit (base : Style) (width : Nat) (row : Row) : (row.fit base width).length = width := by
  simp only [fit, List.length_append, List.length_map, List.length_take, List.length_replicate]
  omega

theorem length_fitRight (base : Style) (width : Nat) (row : Row) :
    (row.fitRight base width).length = width := by
  simp only [fitRight, List.length_append, List.length_map, List.length_take,
    List.length_replicate]
  omega

end Row

/-- A line of a border : two corners and what is between them, `width` cells in all. -/
def borderLine (style : Style) (left right : Char) (title : String) (width : Nat) : Row :=
  let line := (title.toList ++ List.replicate (width - 2) '─').take (width - 2)
  ((left :: line ++ [right]).map fun c => ⟨c, style⟩).take width

/-- Rows inside a border with a title, `width` cells wide and `height` rows high. What the rows
leave empty is in the style `base`. -/
def boxed (title : String) (border base : Style) (width height : Nat) (rows : List Row) :
    List Row :=
  let edge : Cell := ⟨'│', border⟩
  let inside := (List.range (height - 2)).map fun i =>
    (edge :: (rows.getD i []).fit base (width - 2) ++ [edge]).take width
  let top := borderLine border '┌' '┐' title width
  let bottom := borderLine border '└' '┘' "" width
  (top :: inside ++ [bottom]).take height

theorem length_boxed (title : String) (border base : Style) (width height : Nat)
    (rows : List Row) : (boxed title border base width height rows).length = height := by
  simp only [boxed, List.length_take, List.length_append, List.length_cons, List.length_map,
    List.length_range, List.length_nil]
  omega

end MiniC.Viewer
