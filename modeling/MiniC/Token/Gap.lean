import MiniC.Token.Error

/-!
# Gaps between tokens

Between two tokens stand blanks, comments and directives. A line comment and a directive end after
the next line break or with the text, a block comment at its first `*/`. `Gap.skip` passes over the
gap in front of a text, and says where the text behind it starts.
-/

namespace MiniC

/-- A text with the place of its first character. -/
structure Cursor where
  location : Location
  rest : List Char
deriving DecidableEq, Inhabited

/-- What a gap is inside of while it is being passed over. -/
inductive Gap where
  /-- Between comments and directives. -/
  | blank
  /-- In a line comment or a directive, which end after the next line break. -/
  | line
  /-- In a block comment that opened at the given place. -/
  | block (opened : Location)
deriving DecidableEq, Inhabited, Repr

namespace Gap

/-- Whether a character separates tokens and means nothing else. -/
def isBlank (c : Char) : Bool := c = ' ' || c = '\t' || c = '\r' || c = '\n'

/-- Passes over the gap in front of a text. Only a block comment can fail to end. -/
def skip : Gap → Location → List Char → Except LexError Cursor
  | .block opened, _, [] => .error ⟨.unterminatedComment, opened⟩
  | .block _, loc, '*' :: '/' :: cs => skip .blank (loc.after ['*', '/']) cs
  | .block opened, loc, c :: cs => skip (.block opened) (loc.advance c) cs
  | .line, loc, [] => .ok ⟨loc, []⟩
  | .line, loc, c :: cs => skip (if c = '\n' then .blank else .line) (loc.advance c) cs
  | .blank, loc, [] => .ok ⟨loc, []⟩
  | .blank, loc, '/' :: '/' :: cs => skip .line (loc.after ['/', '/']) cs
  | .blank, loc, '/' :: '*' :: cs => skip (.block loc) (loc.after ['/', '*']) cs
  | .blank, loc, c :: cs =>
    if isBlank c then skip .blank (loc.advance c) cs
    else if c = '#' then skip .line (loc.advance c) cs
    else .ok ⟨loc, c :: cs⟩

theorem length_skip {part : Gap} {loc : Location} {cs : List Char} {cursor : Cursor}
    (h : skip part loc cs = .ok cursor) : cursor.rest.length ≤ cs.length := by
  fun_induction skip part loc cs with
  | case1 => simp at h
  | case2 _ _ _ ih | case7 _ _ ih | case8 _ _ ih => grind
  | case3 _ _ _ _ _ ih | case5 _ _ _ ih | case9 _ _ _ _ _ _ ih | case10 _ _ _ _ _ ih => grind
  | case4 | case6 | case11 => grind

end Gap

end MiniC
