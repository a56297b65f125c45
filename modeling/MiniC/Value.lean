import MiniC.DataType
import MiniC.Decimal.Fixed

/-!
# Constants

A `Value` is a known constant : what a literal denotes, what a symbol holds, or what a constant
expression folds to. Its tag is its own type. `Value.convert` is the cast to a declared type : a
float loses its fraction and stops at the ends of the range, an integer loses all but its low eight
bits as a character, and `void` keeps a value as it is.
-/

namespace MiniC

/-- A constant of the language. -/
inductive Value where
  | int (n : Int32)
  | float (x : Float32)
  | char (c : UInt8)
deriving DecidableEq

namespace Value

instance : Inhabited Value := ⟨int 0⟩

/-- The type a value carries with it. -/
def type : Value → DataType
  | int _ => .int
  | float _ => .float
  | char _ => .char

/-- The value as an integer : a float is truncated toward zero and held in range, what is not a
number counts as zero, and a character widens. -/
def toInt32 : Value → Int32
  | int n => n
  | float x => x.toModel.toInt32
  | char c => Int32.ofNat c.toNat

/-- The value as a float, the nearest one. -/
def toFloat32 : Value → Float32
  | int n => .ofModel (.ofInt32 n)
  | float x => x
  | char c => c.toFloat32

/-- Whether the value equals zero; either zero of the floats does. -/
def isZero : Value → Bool
  | float x => x.beq 0
  | v => v.toInt32 = 0

/-- The value cast to `type`. -/
def convert (v : Value) : DataType → Value
  | .int => int v.toInt32
  | .float => float v.toFloat32
  | .char => char v.toInt32.toUInt32.toUInt8
  | .void => v

/-- The two lower-case hexadecimal digits of a byte. -/
def hexDigits (c : UInt8) : List Char := Decimal.paddedLeft '0' 2 (Nat.toDigits 16 c.toNat)

/-- The value as the report and the tree show it : a float with six places, a character as itself
or, beyond ASCII, as its code. -/
def text : Value → String
  | int n => toString n.toInt
  | float x => Decimal.fixed 6 x
  | char c =>
    if c < 128 then String.ofList [Char.ofNat c.toNat]
    else String.ofList ('\\' :: 'x' :: hexDigits c)

theorem type_convert (v : Value) {type : DataType} (h : type ≠ .void) :
    (v.convert type).type = type := by
  cases type <;> first | rfl | contradiction

end Value

end MiniC
