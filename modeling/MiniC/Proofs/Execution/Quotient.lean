import MiniC.Proofs.Execution.Arithmetic

/-!
# Quotients and remainders of constants

The operators `/` and `%` are folded apart, each behind a guard of its own, and yet they go
together : of two whole numbers both are known or neither is (`Value.division_folds`). What they come
to is the one division with remainder that rounds toward zero, `IsDivision`. It has no result for a
zero divisor, and otherwise exactly one (`isDivision_iff`), which an `int` can hold unless it is the
quotient `2 ^ 31`.
-/

namespace MiniC

variable {a b q r m n : Int}

/-! ## Division with remainder -/

/-- The quotient of `a` by `b` is `q`, and what is left over is `r`. -/
structure IsDivision (a b q r : Int) : Prop where
  /-- Nothing is lost. -/
  split : q * b + r = a
  /-- The quotient could not be any larger. -/
  small : |r| < |b|
  /-- The quotient is rounded toward zero. -/
  side : r = 0 ∨ r.sign = a.sign

namespace IsDivision

theorem ne_zero (h : IsDivision a b q r) : b ≠ 0 := by
  rintro rfl
  have hr := h.small
  rw [abs_zero] at hr
  exact (abs_nonneg r).not_gt hr

theorem tdiv (a : Int) (hb : b ≠ 0) : IsDivision a b (a.tdiv b) (a.tmod b) where
  split := Int.tdiv_mul_add_tmod a b
  small := by
    rw [Int.abs_eq_natAbs, Int.abs_eq_natAbs, Int.natAbs_tmod]
    exact Int.ofNat_lt.2 (Nat.mod_lt _ (Int.natAbs_pos.2 hb))
  side := by
    rw [← Int.sign_eq_zero_iff_zero, Int.sign_tmod]
    split
    · exact .inl rfl
    · exact .inr rfl

/-- Two remainders are less than the divisor apart, since both are on the side of `a`. -/
theorem abs_sub_lt (h : IsDivision a b q r) (h' : IsDivision a b m n) : |n - r| < |b| := by
  have hr := h.small
  have hn := h'.small
  have hside := h.side
  have hside' := h'.side
  grind

theorem unique (h : IsDivision a b q r) (h' : IsDivision a b m n) : q = m ∧ r = n := by
  have hsub : n - r = b * (q - m) := by
    have hq := h.split
    have hm := h'.split
    grind
  have hdvd : |b| ∣ n - r := (abs_dvd b _).2 ⟨q - m, hsub⟩
  have hr : n - r = 0 := Int.eq_zero_of_abs_lt_dvd hdvd (h.abs_sub_lt h')
  have hq : q - m = 0 := (mul_eq_zero.1 (hsub ▸ hr)).resolve_left h.ne_zero
  exact ⟨sub_eq_zero.1 hq, (sub_eq_zero.1 hr).symm⟩

end IsDivision

/-- Division with remainder has one result, unless the divisor is zero. -/
theorem isDivision_iff : IsDivision a b q r ↔ b ≠ 0 ∧ q = a.tdiv b ∧ r = a.tmod b := by
  constructor
  · intro h
    exact ⟨h.ne_zero, h.unique (.tdiv a h.ne_zero)⟩
  · rintro ⟨hb, rfl, rfl⟩
    exact .tdiv a hb

/-! ## Folding -/

namespace Value

variable {v w : Value}

/-- The guard of both operators, told by the numbers. -/
theorem quotientDefined_iff {x y : Int32} :
    quotientDefined x y = true ↔ ¬(y.toInt = 0 ∨ x.toInt = -2 ^ 31 ∧ y.toInt = -1) := by
  have hzero : y = 0 ↔ y.toInt = 0 := Int32.toInt_inj.symm
  have hleast : x = Int32.minValue ↔ x.toInt = -2 ^ 31 := Int32.toInt_inj.symm
  have hone : y = -1 ↔ y.toInt = -1 := Int32.toInt_inj.symm
  rw [quotientDefined, Bool.not_eq_true', ← Bool.not_eq_true, ← hzero, ← hleast, ← hone]
  simp

/-- Of any two whole numbers, the quotient and the remainder are both unknown or both known. They
are unknown if the divisor is zero or the quotient is out of range, and otherwise they are the
integers that division with remainder comes to. -/
theorem division_folds (hv : v.Denotes a) (hw : w.Denotes b) :
    (binary? .div v w = none ∧ binary? .mod v w = none ∧ (b = 0 ∨ a = -2 ^ 31 ∧ b = -1)) ∨
    (∃ q r : Int32, binary? .div v w = some (int q) ∧ binary? .mod v w = some (int r) ∧
      ¬(b = 0 ∨ a = -2 ^ 31 ∧ b = -1) ∧
      ∀ m n : Int, IsDivision a b m n ↔ m = q.toInt ∧ n = r.toInt) := by
  have hx := hv.toInt_toInt32
  have hy := hw.toInt_toInt32
  rw [hv.binary?_eq hw, hv.binary?_eq hw]
  generalize v.toInt32 = x at hx ⊢
  generalize w.toInt32 = y at hy ⊢
  subst hx hy
  by_cases hd : quotientDefined x y = true
  · have hn := quotientDefined_iff.1 hd
    refine .inr ⟨x / y, x % y, if_pos hd, if_pos hd, hn, fun m n => ?_⟩
    rw [isDivision_iff, toInt_div fun h => hn (.inr h), Int32.toInt_mod]
    exact and_iff_right fun h => hn (.inl h)
  · exact .inl ⟨if_neg hd, if_neg hd, not_not.1 (mt quotientDefined_iff.2 hd)⟩

/-- A negative integer is divided by a character : the remainder is negative as well. -/
theorem division_of_negative_by_character :
    (int (-7)).Denotes (-7) ∧ (char 2).Denotes 2 ∧
      binary? .div (int (-7)) (char 2) = some (int (-3)) ∧
      binary? .mod (int (-7)) (char 2) = some (int (-1)) ∧ IsDivision (-7) 2 (-3) (-1) := by
  have hv : (int (-7)).Denotes (-7) := by decide
  have hw : (char 2).Denotes 2 := by decide
  obtain ⟨hnone, -⟩ | ⟨q, r, hq, hr, -, h⟩ := division_folds hv hw
  · exact absurd hnone (by decide)
  · have hd : IsDivision (-7) 2 (-3) (-1) := ⟨by decide, by decide, by decide⟩
    obtain ⟨hm, hn⟩ := (h _ _).1 hd
    rw [show q = -3 from Int32.toInt_inj.1 hm.symm] at hq
    rw [show r = -1 from Int32.toInt_inj.1 hn.symm] at hr
    exact ⟨hv, hw, hq, hr, hd⟩

end Value

end MiniC
