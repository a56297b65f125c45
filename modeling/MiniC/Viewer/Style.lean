import MiniC.Diagnostic

/-!
# Colours and styles

A `Style` is what is asked of a cell of the screen : its two colours, each if it matters, and
whether it is bold. `Style.above` puts one style over another. `Theme` has the colours of the viewer
by what they stand for.
-/

namespace MiniC.Viewer

/-- A colour. -/
inductive Color where
  | black
  | rgb (red green blue : UInt8)
deriving DecidableEq, Inhabited, Repr

/-- What is asked of a cell of the screen. -/
structure Style where
  /-- The colour of the character. -/
  fg : Option Color
  /-- The colour behind the character. -/
  bg : Option Color
  bold : Bool
deriving DecidableEq, Inhabited, Repr

namespace Style

/-- Nothing is asked. -/
def plain : Style := ⟨none, none, false⟩

/-- A colour for the character. -/
def colored (color : Color) : Style := ⟨some color, none, false⟩

/-- The same style in bold. -/
def bolded (s : Style) : Style := { s with bold := true }

/-- The style with another colour behind the character. -/
def onto (s : Style) (color : Color) : Style := { s with bg := some color }

/-- What is asked by `s`, and for the rest by `base`. -/
def above (s base : Style) : Style := ⟨s.fg <|> base.fg, s.bg <|> base.bg, s.bold || base.bold⟩

theorem above_plain (s : Style) : s.above plain = s := by
  cases s with
  | mk fg bg bold => cases fg <;> cases bg <;> simp [above, plain]

theorem plain_above (s : Style) : plain.above s = s := by
  cases s with
  | mk fg bg bold => simp [above, plain]

end Style

namespace Theme

/-- Plain text. -/
def text : Color := .rgb 205 214 244

/-- What is to be seen first. -/
def accent : Color := .rgb 137 180 250

/-- What is to be seen last. -/
def muted : Color := .rgb 108 112 134

/-- Nothing is wrong. -/
def ok : Color := .rgb 166 227 161

/-- An error. -/
def error : Color := .rgb 243 139 168

/-- A warning. -/
def warning : Color := .rgb 203 166 247

/-- A keyword, or a node with children. -/
def keyword : Color := .rgb 137 180 250

/-- A number or a value. -/
def literal : Color := .rgb 250 179 135

/-- The name of a type. -/
def typeName : Color := .rgb 148 226 213

/-- The name of a function. -/
def function : Color := .rgb 249 226 175

/-- A parameter. -/
def param : Color := .rgb 245 194 231

/-- The border of the focused pane. -/
def focus : Color := .rgb 249 226 175

/-- The ground of the status bar. -/
def bar : Color := .rgb 50 50 70

/-- The colour of a severity. -/
def severity : Severity → Color
  | .error => error
  | .warning => warning

/-- The style of the border and title of a pane. -/
def border (focused : Bool) : Style :=
  if focused then (Style.colored focus).bolded else .colored muted

end Theme

end MiniC.Viewer
