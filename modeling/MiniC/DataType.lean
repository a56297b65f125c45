/-!
# The types of the language

`DataType.promote` is the type in which two operands meet : a float on either side makes it
`float`, everything else is `int`. `DataType.narrows` are the conversions that deserve a warning.
-/

namespace MiniC

/-- A type specifier. -/
inductive DataType where
  | int
  | float
  | char
  | void
deriving DecidableEq, Inhabited, Repr

namespace DataType

/-- The keyword that names the type. -/
def name : DataType → String
  | int => "int"
  | float => "float"
  | char => "char"
  | void => "void"

/-- All types, in the order of their declaration. -/
def all : List DataType := [int, float, char, void]

/-- The type of a mixed operation : `float` if either side is, otherwise `int`. -/
def promote (lhs rhs : DataType) : DataType :=
  if lhs = float ∨ rhs = float then float else int

/-- Whether a value of type `source` can lose information when it is stored as `target` : a float in
an integer type, and a character in a float. -/
def narrows (source target : DataType) : Bool :=
  match source, target with
  | float, int | float, char | char, float => true
  | _, _ => false

theorem promote_comm (lhs rhs : DataType) : promote lhs rhs = promote rhs lhs := by
  simp only [promote, or_comm]

end DataType

end MiniC
