import MiniC.Decimal.Digits

/-!
# A fixed number of places

`fixed places x` writes a binary floating-point number with exactly `places` digits behind the
point. The number is taken at its exact value and rounded once, by `roundHalfEven` : to the nearest
multiple of the last place, and from half way to the even one.
-/

namespace MiniC.Decimal

open Float.Model

/-- The integer nearest to `num / den` : from half way, the even one. -/
def roundHalfEven (num den : Nat) : Nat :=
  let q := num / den
  let r := num % den
  if 2 * r < den then q
  else if den < 2 * r then q + 1
  else if q % 2 = 0 then q else q + 1

/-- The fraction `mantissa * 2 ^ exponent`, as numerator and denominator. -/
def binaryFraction (mantissa : Nat) (exponent : Int) : Nat × Nat :=
  (mantissa * Nat.pow 2 exponent.toNat, Nat.pow 2 (-exponent).toNat)

/-- The number `n / 10 ^ places`, written with that many digits behind the point. -/
def point (places n : Nat) : String :=
  let whole := digits (n / Nat.pow 10 places)
  let part := paddedLeft '0' places (digits (n % Nat.pow 10 places))
  if places = 0 then String.ofList whole else String.ofList (whole ++ '.' :: part)

/-- The mark of a sign in front of a number : a minus, or nothing. -/
def signMark : UnpackedFloat.Sign → String
  | .negative => "-"
  | .positive => ""

/-- The number `x` with `places` digits behind the point. A zero keeps its sign. -/
def fixed (places : Nat) (x : Float32) : String :=
  match x.toModel.unpack with
  | .notANumber => "NaN"
  | .infinity sign => signMark sign ++ "inf"
  | .zero sign => signMark sign ++ point places 0
  | .finite sign mantissa exponent _ =>
    let (num, den) := binaryFraction mantissa exponent
    signMark sign ++ point places (roundHalfEven (num * Nat.pow 10 places) den)

/-- Half a unit between an even and an odd number goes to the even one. -/
theorem roundHalfEven_half (q : Nat) : roundHalfEven (2 * q + 1) 2 = q + q % 2 := by
  have hq : (2 * q + 1) / 2 = q := by omega
  have hr : (2 * q + 1) % 2 = 1 := by omega
  simp only [roundHalfEven, hq, hr]
  rcases Nat.mod_two_eq_zero_or_one q with h | h <;> simp [h]

/-- An integer is rounded to itself. -/
theorem roundHalfEven_mul (q : Nat) {den : Nat} (h : 0 < den) :
    roundHalfEven (q * den) den = q := by
  simp [roundHalfEven, Nat.mul_div_cancel _ h, h]

end MiniC.Decimal
