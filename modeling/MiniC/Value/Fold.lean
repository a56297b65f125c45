import MiniC.Operator
import MiniC.Value

/-!
# Folding constants

`Value.binary?` and `Value.unary` apply an operator to constants. Two operands meet in the promoted
type of theirs. Integers wrap around at 32 bits and characters, when they are stepped, at eight;
integer division truncates toward zero. `Value.binary?` has no answer where the language leaves the
result undefined : a zero divisor, the least integer divided by minus one, a remainder of floats.

An increment or decrement folds to the stepped value; no symbol changes.
-/

namespace MiniC

/-- Whether a comparison holds of two operands, given how they compare. Operands that are not
ordered are neither less, nor equal, nor greater. -/
def BinaryOp.holds (op : BinaryOp) (less equal greater : Bool) : Bool :=
  match op with
  | .lt => less
  | .gt => greater
  | .le => less || equal
  | .ge => greater || equal
  | .eq => equal
  | .ne => !equal
  | .add | .sub | .mul | .div | .mod => false

namespace Value

/-- One where the statement holds, and zero elsewhere. -/
def ofBool (b : Bool) : Value := int (if b then 1 else 0)

/-- Whether integer division of `a` by `b` is defined. -/
def quotientDefined (a b : Int32) : Bool := !(b = 0 || (a = Int32.minValue && b = -1))

/-- The operator applied to integers. -/
def intBinary? (op : BinaryOp) (a b : Int32) : Option Value :=
  match op with
  | .add => some (int (a + b))
  | .sub => some (int (a - b))
  | .mul => some (int (a * b))
  | .div => if quotientDefined a b then some (int (a / b)) else none
  | .mod => if quotientDefined a b then some (int (a % b)) else none
  | .lt | .gt | .le | .ge | .eq | .ne => some (ofBool (op.holds (a < b) (a = b) (b < a)))

/-- The operator applied to floats. -/
def floatBinary? (op : BinaryOp) (a b : Float32) : Option Value :=
  match op with
  | .add => some (float (a + b))
  | .sub => some (float (a - b))
  | .mul => some (float (a * b))
  | .div => if b.beq 0 then none else some (float (a / b))
  | .mod => none
  | .lt | .gt | .le | .ge | .eq | .ne => some (ofBool (op.holds (a < b) (a.beq b) (b < a)))

/-- The operator applied to constants, in the type they are promoted to. -/
def binary? (op : BinaryOp) (lhs rhs : Value) : Option Value :=
  match DataType.promote lhs.type rhs.type with
  | .float => floatBinary? op lhs.toFloat32 rhs.toFloat32
  | _ => intBinary? op lhs.toInt32 rhs.toInt32

/-- The unary operator applied to a constant. -/
def unary (op : UnaryOp) (v : Value) : Value :=
  match op, v with
  | .plus, float x => float x
  | .plus, v => int v.toInt32
  | .neg, float x => float (-x)
  | .neg, v => int (-v.toInt32)
  | .not, v => ofBool v.isZero
  | .bitNot, v => int (~~~v.toInt32)
  | .preInc, float x => float (x + 1)
  | .preInc, char c => char (c + 1)
  | .preInc, int n => int (n + 1)
  | .preDec, float x => float (x - 1)
  | .preDec, char c => char (c - 1)
  | .preDec, int n => int (n - 1)

end Value

end MiniC
