/-!
# The lines of a text

`lines` cuts a text behind every line break, and takes the break off, together with a carriage
return in front of it. A text that ends in a line break has no empty line behind it.
-/

namespace MiniC.Text

/-- A line without the carriage return at its end, if there is one. -/
def withoutReturn (cs : List Char) : List Char :=
  if cs.getLast? = some '\r' then cs.dropLast else cs

/-- The lines of a text; `cs` is what the first line holds so far, backwards. -/
def linesFrom (cs : List Char) : List Char → List (List Char)
  | [] => if cs = [] then [] else [cs.reverse]
  | c :: rest =>
    if c = '\n' then withoutReturn cs.reverse :: linesFrom [] rest else linesFrom (c :: cs) rest

/-- The lines of a text. -/
def lines (cs : List Char) : List (List Char) := linesFrom [] cs

end MiniC.Text
