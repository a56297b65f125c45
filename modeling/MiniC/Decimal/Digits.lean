/-!
# Decimal digits

`digits n` writes a natural number with the digits `0` to `9`, and `ofDigits` reads such a run of
digits, the first one weighing most. `paddedLeft` fills a text up to a width.
-/

namespace MiniC.Decimal

/-- The decimal digits of `n`, the first one not `0` unless `n` is. -/
def digits (n : Nat) : List Char := Nat.toDigits 10 n

/-- The number that a run of decimal digits denotes. -/
def ofDigits (ds : List Char) : Nat := ds.foldl (fun n d => 10 * n + (d.toNat - '0'.toNat)) 0

/-- The text `cs` with as many `fill` in front as make it `width` characters long. -/
def paddedLeft (fill : Char) (width : Nat) (cs : List Char) : List Char :=
  List.replicate (width - cs.length) fill ++ cs

@[simp] theorem ofDigits_nil : ofDigits [] = 0 := rfl

theorem length_paddedLeft (fill : Char) (width : Nat) (cs : List Char) :
    (paddedLeft fill width cs).length = max width cs.length := by
  simp only [paddedLeft, List.length_append, List.length_replicate]
  omega

end MiniC.Decimal
