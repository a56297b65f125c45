/-!
# Places in a text

A `Location` is a line and a column, both counted from one. `Location.advance` is the place after
one character and `Location.after` the place after a run of them : a line break starts a new line,
any other character moves one column on.
-/

namespace MiniC

/-- A place in a text. -/
structure Location where
  line : Nat
  column : Nat
deriving DecidableEq, Inhabited, Repr

namespace Location

/-- The first place of a text. -/
def start : Location := ⟨1, 1⟩

/-- The place after the character `c` at `loc`. -/
def advance (loc : Location) (c : Char) : Location :=
  if c = '\n' then ⟨loc.line + 1, 1⟩ else ⟨loc.line, loc.column + 1⟩

/-- The place after the characters `cs`, the first of them at `loc`. -/
def after (loc : Location) (cs : List Char) : Location := cs.foldl advance loc

@[simp] theorem after_nil (loc : Location) : loc.after [] = loc := rfl

@[simp] theorem after_cons (loc : Location) (c : Char) (cs : List Char) :
    loc.after (c :: cs) = (loc.advance c).after cs := rfl

theorem after_append (loc : Location) (cs ds : List Char) :
    loc.after (cs ++ ds) = (loc.after cs).after ds := List.foldl_append

end Location

end MiniC
