/-!
# Finding a text in another

`contains needle cs` holds when the characters `needle` stand somewhere in `cs`, one behind the
other.
-/

namespace MiniC.Text

/-- Whether `needle` is part of a text. -/
def contains (needle : List Char) : List Char → Bool
  | [] => needle.isEmpty
  | c :: cs => needle.isPrefixOf (c :: cs) || contains needle cs

theorem contains_iff_isInfix (needle cs : List Char) :
    contains needle cs = true ↔ needle <:+: cs := by
  induction cs with
  | nil => simp [contains]
  | cons c cs ih => simp [contains, ih, List.infix_cons_iff]

end MiniC.Text
