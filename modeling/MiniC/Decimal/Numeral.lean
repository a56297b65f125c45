import MiniC.Decimal.Digits

/-!
# Reading a decimal numeral

`Numeral.read?` reads digits with at most one point among them and an optional exponent, such as
`2.5`, `3.`, `.5` or `1e-7`. It refuses a text with no digit before the exponent, with no digit in
the exponent, or with anything left over. `Numeral.toFloat32` is the binary32 number nearest to the
numeral, rounded once.
-/

namespace MiniC.Decimal

/-- The number `coefficient * 10 ^ exponent`. -/
structure Numeral where
  coefficient : Nat
  exponent : Int
deriving DecidableEq, Inhabited, Repr

namespace Numeral

/-- Whether a letter introduces an exponent. -/
def isExponentMark (c : Char) : Bool := c = 'e' || c = 'E'

/-- Whether a character is a sign. -/
def isSign (c : Char) : Bool := c = '+' || c = '-'

/-- The number a nonempty run of digits denotes. -/
def natural? (cs : List Char) : Option Nat :=
  if cs ≠ [] ∧ cs.all Char.isDigit then some (ofDigits cs) else none

/-- The exponent that ends a numeral, which may be absent. -/
def exponent? : List Char → Option Int
  | [] => some 0
  | [_] => none
  | mark :: sign :: cs =>
    if !isExponentMark mark then none
    else if sign = '-' then (natural? cs).map fun n => -(n : Int)
    else if sign = '+' then (natural? cs).map fun n => (n : Int)
    else (natural? (sign :: cs)).map fun n => (n : Int)

/-- The numeral that the whole text `cs` is. -/
def read? (cs : List Char) : Option Numeral :=
  let whole := cs.takeWhile Char.isDigit
  let (part, rest) :=
    match cs.dropWhile Char.isDigit with
    | '.' :: r => (r.takeWhile Char.isDigit, r.dropWhile Char.isDigit)
    | r => ([], r)
  if whole = [] ∧ part = [] then none
  else (exponent? rest).map fun e => ⟨ofDigits (whole ++ part), e - part.length⟩

/-- The binary32 number nearest to the numeral, or infinity beyond the largest. -/
def toFloat32 (n : Numeral) : Float32 :=
  Float32.ofScientific n.coefficient (n.exponent < 0) n.exponent.natAbs

end Numeral

end MiniC.Decimal
