/-!
# The operators of the language

Binary, unary, postfix and assignment operators, each with the label it has in a tree. Unary plus
and minus are labelled with their quotes, so that they read apart from the binary ones. A binary
operator belongs to one `Precedence`, and `AssignOp.arithmetic?` is the operation a compound
assignment folds before it stores.
-/

namespace MiniC

/-- An operator between two operands. -/
inductive BinaryOp where
  | add
  | sub
  | mul
  | div
  | mod
  | lt
  | gt
  | le
  | ge
  | eq
  | ne
deriving DecidableEq, Inhabited, Repr

/-- The levels at which binary operators bind, the loosest first. -/
inductive Precedence where
  | equality
  | relational
  | additive
  | multiplicative
deriving DecidableEq, Inhabited, Repr

namespace Precedence

/-- The level that binds one step tighter, if there is one. -/
def tighter? : Precedence → Option Precedence
  | equality => some relational
  | relational => some additive
  | additive => some multiplicative
  | multiplicative => none

/-- How many levels bind at least as tightly. -/
def rank : Precedence → Nat
  | equality => 4
  | relational => 3
  | additive => 2
  | multiplicative => 1

end Precedence

namespace BinaryOp

/-- The operator as a tree shows it. -/
def label : BinaryOp → String
  | add => "+"
  | sub => "-"
  | mul => "*"
  | div => "/"
  | mod => "%"
  | lt => "<"
  | gt => ">"
  | le => "<="
  | ge => ">="
  | eq => "=="
  | ne => "!="

/-- All binary operators. -/
def all : List BinaryOp := [add, sub, mul, div, mod, lt, gt, le, ge, eq, ne]

/-- Whether the operator answers a question about its operands. -/
def isComparison : BinaryOp → Bool
  | lt | gt | le | ge | eq | ne => true
  | add | sub | mul | div | mod => false

/-- The level the operator binds at. -/
def precedence : BinaryOp → Precedence
  | eq | ne => .equality
  | lt | gt | le | ge => .relational
  | add | sub => .additive
  | mul | div | mod => .multiplicative

end BinaryOp

/-- An operator in front of its operand. -/
inductive UnaryOp where
  | plus
  | neg
  | not
  | bitNot
  | preInc
  | preDec
deriving DecidableEq, Inhabited, Repr

namespace UnaryOp

/-- The operator as a tree shows it. -/
def label : UnaryOp → String
  | plus => "'+'"
  | neg => "'-'"
  | not => "!"
  | bitNot => "~"
  | preInc => "++"
  | preDec => "--"

/-- All unary operators. -/
def all : List UnaryOp := [plus, neg, not, bitNot, preInc, preDec]

end UnaryOp

/-- An operator behind its operand. -/
inductive PostfixOp where
  | inc
  | dec
deriving DecidableEq, Inhabited, Repr

namespace PostfixOp

/-- The operator as a tree shows it. -/
def label : PostfixOp → String
  | inc => "++"
  | dec => "--"

/-- All postfix operators. -/
def all : List PostfixOp := [inc, dec]

/-- The unary operator that steps a value the same way. -/
def step : PostfixOp → UnaryOp
  | inc => .preInc
  | dec => .preDec

end PostfixOp

/-- An operator that stores its right operand in its left one. -/
inductive AssignOp where
  | assign
  | add
  | sub
  | mul
  | div
  | mod
deriving DecidableEq, Inhabited, Repr

namespace AssignOp

/-- The operator as a tree shows it. -/
def label : AssignOp → String
  | assign => "="
  | add => "+="
  | sub => "-="
  | mul => "*="
  | div => "/="
  | mod => "%="

/-- All assignment operators. -/
def all : List AssignOp := [assign, add, sub, mul, div, mod]

/-- The operation a compound assignment applies to its operands before it stores the result. -/
def arithmetic? : AssignOp → Option BinaryOp
  | assign => none
  | add => some .add
  | sub => some .sub
  | mul => some .mul
  | div => some .div
  | mod => some .mod

end AssignOp

end MiniC
