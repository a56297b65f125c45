import MiniC.Symbol.Table
import MiniC.Value.Fold

/-!
# Operands

An `Operand` is what is known of a subtree that waits for its construct : its type, the constant it
folds to, and the symbol it names. Here is how the operators of the language act on operands, apart
from what they report.
-/

namespace MiniC

/-- What is known of a subtree. -/
structure Operand where
  type : Option DataType
  value : Option Value
  /-- The symbol that the subtree names; only such a subtree can be assigned to. -/
  symbol : Option SymbolId
deriving DecidableEq

namespace Operand

/-- Nothing is known, as of a statement. -/
def unknown : Operand := ⟨none, none, none⟩

instance : Inhabited Operand := ⟨unknown⟩

/-- A constant. -/
def constant (value : Value) : Operand := ⟨some value.type, some value, none⟩

/-- Whether the operand is known to be zero. -/
def isZero (o : Operand) : Bool := o.value.any Value.isZero

/-- The type in which two operands meet. What has no type takes that of the other side. -/
def promoted (lhs rhs : Operand) : Option DataType :=
  match lhs.type, rhs.type with
  | some l, some r => some (.promote l r)
  | known, none => known
  | none, known => known

/-- The constant that a binary operator folds two operands to. -/
def folded (op : BinaryOp) (lhs rhs : Operand) : Option Value :=
  match lhs.value, rhs.value with
  | some l, some r => Value.binary? op l r
  | _, _ => none

/-- The types of the operands of a remainder, when one of them is a float. -/
def floatRemainder? (lhs rhs : Operand) : Option (DataType × DataType) :=
  let l := lhs.type.getD .int
  let r := rhs.type.getD .int
  if l = .float ∨ r = .float then some (l, r) else none

/-- A binary operator between two operands. A comparison answers with an integer. -/
def binary (op : BinaryOp) (lhs rhs : Operand) : Operand :=
  ⟨if op.isComparison then some .int else promoted lhs rhs, folded op lhs rhs, none⟩

/-- A unary operator in front of an operand. A step keeps the type, a sign promotes it, and the
others answer with an integer. -/
def unary (op : UnaryOp) (o : Operand) : Operand :=
  let type :=
    match op with
    | .not | .bitNot => some .int
    | .plus | .neg => o.type.map fun t => .promote t .int
    | .preInc | .preDec => o.type
  ⟨type, o.value.map (Value.unary op), none⟩

/-- A step behind an operand. -/
def postfixed (op : PostfixOp) (o : Operand) : Operand :=
  ⟨o.type, o.value.map (Value.unary op.step), none⟩

/-- A conditional expression. Both branches are converted to the type in which they meet. -/
def conditional (condition yes no : Operand) : Operand :=
  let type :=
    match yes.type, no.type with
    | some a, some b => some (DataType.promote a b)
    | _, _ => none
  let value := condition.value.bind fun c => if c.isZero then no.value else yes.value
  ⟨type, match type with | some t => value.map (·.convert t) | none => value, none⟩

end Operand

end MiniC
