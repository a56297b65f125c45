import MiniC.Decimal.Fixed

/-!
# The shortest text that reads back

`shortest x` writes a binary floating-point number with as few significant digits as still read
back as that number, and of those the nearest, always positionally and never with an exponent.

The reals that round to a number form an `Interval`. A grid of spacing `10 ^ k` has a point in it
if and only if one of the two grid points around the number lies in it, so `Interval.nearest?`
looks at those two alone, and `Interval.shortest?` takes the coarsest grid on which it finds one.
-/

namespace MiniC.Decimal

open Float.Model

/-- The reals that round to a number : three numerators over one denominator. Its ends belong to it
when `closed` is set. -/
structure Interval where
  low : Nat
  value : Nat
  high : Nat
  den : Nat
  closed : Bool
deriving Inhabited, Repr

namespace Interval

/-- The reals that round to `mantissa * 2 ^ exponent`. The next number below is half as far away
where the mantissa is the least of a normal number, except for the least normal numbers. The ends
round to the even mantissa. -/
def ofBinary (mantissa : Nat) (exponent : Int) : Interval :=
  let below := if mantissa = Nat.pow 2 23 ∧ -149 < exponent then 1 else 2
  let scale := Nat.pow 2 exponent.toNat
  { low := (4 * mantissa - below) * scale
    value := 4 * mantissa * scale
    high := (4 * mantissa + 2) * scale
    den := 4 * Nat.pow 2 (-exponent).toNat
    closed := mantissa % 2 = 0 }

/-- Whether `n * 10 ^ k` lies in the interval. -/
def contains (i : Interval) (k : Int) (n : Nat) : Bool :=
  let scaled := n * Nat.pow 10 k.toNat * i.den
  let unit := Nat.pow 10 (-k).toNat
  if i.closed then i.low * unit ≤ scaled && scaled ≤ i.high * unit
  else i.low * unit < scaled && scaled < i.high * unit

/-- The point `n` of the grid of spacing `10 ^ k` that lies in the interval and is nearest to the
number : from half way, the upper one. -/
def nearest? (i : Interval) (k : Int) : Option Nat :=
  let num := i.value * Nat.pow 10 (-k).toNat
  let den := i.den * Nat.pow 10 k.toNat
  let below := num / den
  let upper := den ≤ 2 * (num % den)
  match i.contains k below, i.contains k (below + 1) with
  | true, true => some (if upper then below + 1 else below)
  | true, false => some below
  | false, true => some (below + 1)
  | false, false => none

/-- The grids that are tried for a binary32 number, from coarse to fine. Every such number is below
`10 ^ 39`, and the finest grid has a point in every interval. -/
def grids : List Int := (List.range 85).map fun (i : Nat) => 39 - (i : Int)

/-- The point of the coarsest grid that has one in the interval, with the exponent of the grid. -/
def shortest? (i : Interval) : Option (Nat × Int) :=
  grids.findSome? fun k => (i.nearest? k).map fun n => (n, k)

end Interval

/-- The number `n * 10 ^ k`, written without an exponent. -/
def positional (n : Nat) (k : Int) : String :=
  if 0 ≤ k then String.ofList (digits (n * Nat.pow 10 k.toNat)) else point (-k).toNat n

/-- The shortest text that reads back as `x`. -/
def shortest (x : Float32) : String :=
  match x.toModel.unpack with
  | .notANumber => "NaN"
  | .infinity sign => signMark sign ++ "inf"
  | .zero sign => signMark sign ++ "0"
  | .finite sign mantissa exponent _ =>
    match (Interval.ofBinary mantissa exponent).shortest? with
    | some (n, k) => signMark sign ++ positional n k
    | none => fixed 149 x

end MiniC.Decimal
