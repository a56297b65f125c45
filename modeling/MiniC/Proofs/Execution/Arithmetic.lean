import Mathlib
import MiniC.Value.Fold

/-!
# Integer arithmetic and the constants that stand for it

The arithmetic of the language on `int` and `char` is that of the integers, brought back into
range : an `int` wraps around at 32 bits with a sign, a `char` at eight bits without one
(`DataType.fit`). Operands are promoted to `int`, which changes no number. `BinaryOp.result?` has no
answer for a quotient or a remainder by zero, nor for the one quotient that is out of range.

`Value.Denotes v n` says that the constant `v` stands for the number `n`. Folding constants is
sound : where the arithmetic has an answer, a constant that is folded stands for it
(`Value.Denotes.binary`, `Value.Denotes.unary`, `Value.Denotes.convert`).
-/

namespace MiniC

/-- The types of whole numbers. -/
def DataType.IsInteger (type : DataType) : Prop := type = int ∨ type = char

instance (type : DataType) : Decidable type.IsInteger := inferInstanceAs (Decidable (_ ∨ _))

/-- What a number becomes when it is stored as a value of the type. -/
def DataType.fit (type : DataType) (n : Int) : Int :=
  match type with
  | char => n % 2 ^ 8
  | int | float | void => n.bmod (2 ^ 32)

/-- The number that the operator makes of two promoted operands. -/
def BinaryOp.result? (op : BinaryOp) (a b : Int) : Option Int :=
  match op with
  | add => some (DataType.int.fit (a + b))
  | sub => some (DataType.int.fit (a - b))
  | mul => some (DataType.int.fit (a * b))
  | div => if b = 0 ∨ a = -2 ^ 31 ∧ b = -1 then none else some (a.tdiv b)
  | mod => if b = 0 then none else some (a.tmod b)
  | lt => some (if a < b then 1 else 0)
  | gt => some (if b < a then 1 else 0)
  | le => some (if a ≤ b then 1 else 0)
  | ge => some (if b ≤ a then 1 else 0)
  | eq => some (if a = b then 1 else 0)
  | ne => some (if a ≠ b then 1 else 0)

/-- The number that the operator makes of a promoted operand. A step is no arithmetic. -/
def UnaryOp.result? (op : UnaryOp) (n : Int) : Option Int :=
  match op with
  | plus => some n
  | neg => some (DataType.int.fit (-n))
  | not => some (if n = 0 then 1 else 0)
  | bitNot => some (-n - 1)
  | preInc | preDec => none

/-- The number that an assignment stores before it is brought into range, where the target held `a`
and the right side is `b`. -/
def AssignOp.result? (op : AssignOp) (a b : Int) : Option Int :=
  match op.arithmetic? with
  | none => some b
  | some op => op.result? a b

theorem DataType.fit_fit (type : DataType) (n : Int) : type.fit (type.fit n) = type.fit n := by
  cases type
  case char => exact Int.emod_emod_of_dvd n (Int.dvd_refl _)
  case int | float | void => exact Int.bmod_bmod

namespace Value

/-- The number that a constant stands for, if it is a whole one. -/
def number? : Value → Option Int
  | int m => some m.toInt
  | char c => some c.toNat
  | float _ => none

/-- The constant stands for the number. -/
def Denotes (v : Value) (n : Int) : Prop := v.number? = some n

instance (v : Value) (n : Int) : Decidable (v.Denotes n) :=
  inferInstanceAs (Decidable (_ = _))

variable {v w u : Value} {a b c n m : Int}

theorem Denotes.type_isInteger (h : v.Denotes n) : v.type.IsInteger := by
  cases v with
  | int m => exact .inl rfl
  | char c => exact .inr rfl
  | float x => cases h

theorem Denotes.toInt_toInt32 (h : v.Denotes n) : v.toInt32.toInt = n := by
  cases v with
  | int m => exact Option.some.inj h
  | char c =>
    have hc : c.toNat < 2 ^ 31 := Nat.lt_trans c.toNat_lt (by decide)
    exact (Int32.toInt_ofNat_of_lt hc).trans (Option.some.inj h)
  | float x => cases h

theorem Denotes.fit_int (h : v.Denotes n) : DataType.int.fit n = n := by
  rw [← h.toInt_toInt32]
  exact Int32.toInt_bmod _

theorem Denotes.isZero_iff (h : v.Denotes n) : v.isZero = true ↔ n = 0 := by
  have hz : v.toInt32 = 0 ↔ n = 0 := by
    rw [← h.toInt_toInt32]
    exact Int32.toInt_inj.symm
  cases v with
  | int m => exact decide_eq_true_iff.trans hz
  | char c => exact decide_eq_true_iff.trans hz
  | float x => cases h

theorem denotes_ofBool {t : Bool} {p : Prop} [Decidable p] (h : t = true ↔ p) :
    (ofBool t).Denotes (if p then 1 else 0) := by
  cases t with
  | true => rw [if_pos (h.1 rfl)]; decide
  | false => rw [if_neg fun hp => Bool.false_ne_true (h.2 hp)]; decide

/-- The low eight bits of an integer are its remainder. -/
theorem toNat_toUInt8 (x : Int32) : (x.toUInt32.toUInt8.toNat : Int) = x.toInt % 2 ^ 8 := by
  have hx : x.toInt = x.toBitVec.toInt := rfl
  have hn : x.toUInt32.toNat = x.toBitVec.toNat := rfl
  rw [UInt32.toNat_toUInt8, hn, hx, BitVec.toInt_eq_toNat_cond]
  split <;> omega

theorem toInt_not (x : Int32) : (~~~x).toInt = -x.toInt - 1 := by
  have hlo := x.le_toInt
  have hhi := x.toInt_lt
  rw [Int32.toInt_not]
  exact Int.bmod_eq_of_le (by omega) (by omega)

/-- A conversion stands for the number brought into range. -/
theorem Denotes.convert (h : v.Denotes n) {type : DataType} (ht : type.IsInteger) :
    (v.convert type).Denotes (type.fit n) ∧ (v.convert type).type = type := by
  obtain rfl | rfl := ht
  · exact ⟨congrArg some (h.toInt_toInt32.trans h.fit_int.symm), rfl⟩
  · refine ⟨?_, rfl⟩
    rw [← h.toInt_toInt32]
    exact congrArg some (toNat_toUInt8 _)

theorem Denotes.unary (h : v.Denotes n) {op : UnaryOp} (hr : op.result? n = some m) :
    (Value.unary op v).Denotes m := by
  have hv := h.toInt_toInt32
  have hz := h.isZero_iff
  cases v with
  | float x => cases h
  | int x | char x =>
    cases op with
    | preInc | preDec => cases hr
    | plus =>
      obtain rfl := Option.some.inj hr
      exact congrArg some hv
    | neg =>
      obtain rfl := Option.some.inj hr
      rw [← hv]
      exact congrArg some (Int32.toInt_neg _)
    | not =>
      obtain rfl := Option.some.inj hr
      exact denotes_ofBool hz
    | bitNot =>
      obtain rfl := Option.some.inj hr
      rw [← hv]
      exact congrArg some (toInt_not _)

theorem denotes_comparison {x y : Int32} {op : BinaryOp} (hop : op.isComparison = true)
    (hr : op.result? x.toInt y.toInt = some c) :
    (ofBool (op.holds (x < y) (x = y) (y < x))).Denotes c := by
  have hlt (x y : Int32) : decide (x < y) = true ↔ x.toInt < y.toInt :=
    decide_eq_true_iff.trans Int32.lt_iff_toInt_lt
  have heq : decide (x = y) = true ↔ x.toInt = y.toInt :=
    decide_eq_true_iff.trans Int32.toInt_inj.symm
  cases op with
  | add | sub | mul | div | mod => cases hop
  | lt | gt | eq | ne =>
    obtain rfl := Option.some.inj hr
    refine denotes_ofBool ?_
    simp only [BinaryOp.holds, Bool.not_eq_true', ← Bool.not_eq_true, hlt, heq, ne_eq]
  | le | ge =>
    obtain rfl := Option.some.inj hr
    refine denotes_ofBool ?_
    simp only [BinaryOp.holds, Bool.or_eq_true, hlt, heq]
    omega

/-- A quotient that is in range is that of the integers. -/
theorem toInt_div {x y : Int32} (h : ¬(x.toInt = -2 ^ 31 ∧ y.toInt = -1)) :
    (x / y).toInt = x.toInt.tdiv y.toInt := by
  by_cases hx : x = Int32.minValue
  · refine Int32.toInt_div_of_ne_right x y fun hy => h ?_
    rw [hx, hy]
    decide
  · exact Int32.toInt_div_of_ne_left x y hx

theorem denotes_intBinary {x y : Int32} {op : BinaryOp}
    (hr : op.result? x.toInt y.toInt = some c) (hu : intBinary? op x y = some u) :
    u.Denotes c := by
  cases op with
  | add =>
    obtain rfl := Option.some.inj hr
    obtain rfl := Option.some.inj hu
    exact congrArg some (Int32.toInt_add x y)
  | sub =>
    obtain rfl := Option.some.inj hr
    obtain rfl := Option.some.inj hu
    exact congrArg some (Int32.toInt_sub x y)
  | mul =>
    obtain rfl := Option.some.inj hr
    obtain rfl := Option.some.inj hu
    exact congrArg some (Int32.toInt_mul x y)
  | div =>
    simp only [BinaryOp.result?, Option.ite_none_left_eq_some, not_or] at hr
    simp only [intBinary?, Option.ite_none_right_eq_some] at hu
    obtain ⟨⟨-, hq⟩, rfl⟩ := And.imp_right Option.some.inj hr
    obtain ⟨-, rfl⟩ := And.imp_right Option.some.inj hu
    exact congrArg some (toInt_div hq)
  | mod =>
    simp only [BinaryOp.result?, Option.ite_none_left_eq_some] at hr
    simp only [intBinary?, Option.ite_none_right_eq_some] at hu
    obtain ⟨-, rfl⟩ := And.imp_right Option.some.inj hr
    obtain ⟨-, rfl⟩ := And.imp_right Option.some.inj hu
    exact congrArg some (Int32.toInt_mod x y)
  | lt | gt | le | ge | eq | ne =>
    obtain rfl := Option.some.inj hu
    exact denotes_comparison rfl hr

/-- Whole numbers meet in the type `int`. -/
theorem Denotes.binary?_eq (hv : v.Denotes a) (hw : w.Denotes b) (op : BinaryOp) :
    binary? op v w = intBinary? op v.toInt32 w.toInt32 := by
  have hi : DataType.promote v.type w.type = .int := by
    rcases hv.type_isInteger with ht | ht <;> rcases hw.type_isInteger with ht' | ht' <;>
      rw [ht, ht'] <;> rfl
  rw [binary?, hi]

theorem Denotes.binary (hv : v.Denotes a) (hw : w.Denotes b) {op : BinaryOp}
    (hr : op.result? a b = some c) (hu : binary? op v w = some u) : u.Denotes c := by
  rw [← hv.toInt_toInt32, ← hw.toInt_toInt32] at hr
  rw [hv.binary?_eq hw] at hu
  exact denotes_intBinary hr hu

end Value

end MiniC
