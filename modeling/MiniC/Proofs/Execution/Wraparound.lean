import Mathlib.Data.Int.ModEq
import MiniC.Proofs.After

/-!
# Integer constants fold exactly

An `IntExpr` is an expression of integer literals and the operators that fold integers without an
exception. Its constants wrap around at 32 bits at every operator, while `IntExpr.exact` calculates
without bounds. To wrap around is to go over to residues, which these operators respect, so it does
not matter that it is done at every step and not once at the end.

`Analyzer.pushed` is a state with one more subtree that folds to a number. The events of an
expression lead to such a state, and the number is the exact one (`IntExpr.folds_exact`). So they
report nothing, and the constant is the residue of the exact number that an `int` can hold
(`IntExpr.folds_exactly`).
-/

namespace MiniC

/-- An expression of integer literals in which nothing can go wrong, with the places of its
events. -/
inductive IntExpr where
  | literal (n : Int32) (loc : Location)
  | add (lhs rhs : IntExpr) (loc : Location)
  | sub (lhs rhs : IntExpr) (loc : Location)
  | mul (lhs rhs : IntExpr) (loc : Location)
  | plus (e : IntExpr) (loc : Location)
  | neg (e : IntExpr) (loc : Location)
  | bitNot (e : IntExpr) (loc : Location)
  | preInc (e : IntExpr) (loc : Location)
  | preDec (e : IntExpr) (loc : Location)
  | postInc (e : IntExpr) (loc : Location)
  | postDec (e : IntExpr) (loc : Location)

namespace IntExpr

/-- The events of the expression, an operator behind its operands. -/
def events : IntExpr → List Event
  | literal n loc => [⟨.literal (.int n), loc⟩]
  | add l r loc => l.events ++ r.events ++ [⟨.binary .add, loc⟩]
  | sub l r loc => l.events ++ r.events ++ [⟨.binary .sub, loc⟩]
  | mul l r loc => l.events ++ r.events ++ [⟨.binary .mul, loc⟩]
  | plus e loc => e.events ++ [⟨.unary .plus, loc⟩]
  | neg e loc => e.events ++ [⟨.unary .neg, loc⟩]
  | bitNot e loc => e.events ++ [⟨.unary .bitNot, loc⟩]
  | preInc e loc => e.events ++ [⟨.unary .preInc, loc⟩]
  | preDec e loc => e.events ++ [⟨.unary .preDec, loc⟩]
  | postInc e loc => e.events ++ [⟨.postfixed .inc, loc⟩]
  | postDec e loc => e.events ++ [⟨.postfixed .dec, loc⟩]

/-- The number that the expression comes to, calculated without bounds. -/
def exact : IntExpr → Int
  | literal n _ => n.toInt
  | add l r _ => l.exact + r.exact
  | sub l r _ => l.exact - r.exact
  | mul l r _ => l.exact * r.exact
  | plus e _ => e.exact
  | neg e _ => -e.exact
  | bitNot e _ => -e.exact - 1
  | preInc e _ | postInc e _ => e.exact + 1
  | preDec e _ | postDec e _ => e.exact - 1

end IntExpr

/-! ## Operators on integer constants -/

namespace Operand

variable {v w u : Int32}

/-- The operand that folds to an `int`, the residue of `n`. -/
def wrapped (n : Int) : Operand := .constant (.int (.ofInt n))

theorem unary_int (op : UnaryOp) (v : Int32) :
    unary op (.constant (.int v)) = .constant (.unary op (.int v)) := by
  cases op <;> rfl

theorem postfixed_int (op : PostfixOp) (v : Int32) :
    postfixed op (.constant (.int v)) = .constant (.unary op.step (.int v)) := by
  cases op <;> rfl

theorem binary_int {op : BinaryOp} (h : Value.intBinary? op v w = some (.int u)) :
    binary op (.constant (.int v)) (.constant (.int w)) = .constant (.int u) := by
  have hf : folded op (.constant (.int v)) (.constant (.int w)) = some (.int u) := h
  rw [binary, hf]
  cases op <;> rfl

end Operand

namespace Analyzer

variable {a : Analyzer} {events more : List Event} {loc : Location} {s t : Tree} {x y n : Int}

/-- The state with one more subtree, which folds to the residue of `n`. -/
def pushed (a : Analyzer) (t : Tree) (n : Int) : Analyzer :=
  { a with trees := a.trees.push t, operands := .wrapped n :: a.operands }

theorem apply_unary_pushed {op : UnaryOp}
    (h : Value.unary op (.int (.ofInt x)) = .int (.ofInt n)) :
    (a.pushed t x).apply ⟨.unary op, loc⟩ = .ok (a.pushed (.ofChildren op.label [t]) n) := by
  have ho : Operand.unary op (.wrapped x) = .wrapped n := by
    rw [Operand.wrapped, Operand.unary_int, h]
    rfl
  simp only [apply, pushed, ho]
  rfl

theorem apply_postfixed_pushed {op : PostfixOp}
    (h : Value.unary op.step (.int (.ofInt x)) = .int (.ofInt n)) :
    (a.pushed t x).apply ⟨.postfixed op, loc⟩ = .ok (a.pushed (.ofChildren op.label [t]) n) := by
  have ho : Operand.postfixed op (.wrapped x) = .wrapped n := by
    rw [Operand.wrapped, Operand.postfixed_int, h]
    rfl
  simp only [apply, pushed, ho]
  rfl

/-- An operator that is no division finds nothing wrong with integers. -/
theorem apply_binary_pushed {op : BinaryOp} (hd : op ≠ .div)
    (h : Value.intBinary? op (.ofInt x) (.ofInt y) = some (.int (.ofInt n))) :
    ((a.pushed s x).pushed t y).apply ⟨.binary op, loc⟩ =
      .ok (a.pushed (.ofChildren op.label [s, t]) n) := by
  have ho : Operand.binary op (.wrapped x) (.wrapped y) = .wrapped n := Operand.binary_int h
  have hr : Operand.floatRemainder? (.wrapped x) (.wrapped y) = none := rfl
  simp only [apply, binary, pushed, hd, false_and, if_false, hr, ho]
  rfl

/-- The events lead to a state with one more subtree, which folds to the residue of `n`. -/
def Folds (events : List Event) (n : Int) : Prop :=
  ∀ a : Analyzer, ∃ t, a.after events = .ok (a.pushed t n)

theorem Folds.unary (h : Folds events x) {op : UnaryOp}
    (hn : Value.unary op (.int (.ofInt x)) = .int (.ofInt n)) :
    Folds (events ++ [⟨.unary op, loc⟩]) n := fun a => by
  obtain ⟨t, ht⟩ := h a
  exact ⟨_, after_snoc_of_ok ht (apply_unary_pushed hn)⟩

theorem Folds.postfixed (h : Folds events x) {op : PostfixOp}
    (hn : Value.unary op.step (.int (.ofInt x)) = .int (.ofInt n)) :
    Folds (events ++ [⟨.postfixed op, loc⟩]) n := fun a => by
  obtain ⟨t, ht⟩ := h a
  exact ⟨_, after_snoc_of_ok ht (apply_postfixed_pushed hn)⟩

theorem Folds.binary (hl : Folds events x) (hr : Folds more y) {op : BinaryOp} (hd : op ≠ .div)
    (hn : Value.intBinary? op (.ofInt x) (.ofInt y) = some (.int (.ofInt n))) :
    Folds (events ++ more ++ [⟨.binary op, loc⟩]) n := fun a => by
  obtain ⟨s, hs⟩ := hl a
  obtain ⟨t, ht⟩ := hr (a.pushed s x)
  exact ⟨_, after_snoc_of_ok ((after_append_of_ok hs more).trans ht) (apply_binary_pushed hd hn)⟩

end Analyzer

/-! ## Expressions -/

namespace IntExpr

open Analyzer

theorem ofInt_bitNot (n : Int) : ~~~Int32.ofInt n = .ofInt (-n - 1) := by
  rw [Int32.not_eq_neg_add, Int32.ofInt_sub, Int32.ofInt_neg]
  rfl

/-- The events of an expression fold it to the residue of its exact number. -/
theorem folds_exact (e : IntExpr) : Folds e.events e.exact := by
  induction e with
  | literal n loc =>
    refine fun a => ⟨.leaf (Value.int n).text, ?_⟩
    have ho : Operand.wrapped n.toInt = .constant (.int n) := by
      rw [Operand.wrapped, Int32.ofInt_toInt]
    rw [exact, pushed, ho]
    rfl
  | add l r loc ihl ihr =>
    exact ihl.binary ihr nofun (congrArg (some ∘ Value.int) (Int32.ofInt_add ..).symm)
  | sub l r loc ihl ihr =>
    exact ihl.binary ihr nofun (congrArg (some ∘ Value.int) (Int32.ofInt_sub ..).symm)
  | mul l r loc ihl ihr =>
    exact ihl.binary ihr nofun (congrArg (some ∘ Value.int) (Int32.ofInt_mul ..).symm)
  | plus e loc ih => exact ih.unary rfl
  | neg e loc ih => exact ih.unary (congrArg Value.int (Int32.ofInt_neg _).symm)
  | bitNot e loc ih => exact ih.unary (congrArg Value.int (ofInt_bitNot _))
  | preInc e loc ih => exact ih.unary (congrArg Value.int (Int32.ofInt_add _ 1).symm)
  | preDec e loc ih => exact ih.unary (congrArg Value.int (Int32.ofInt_sub _ 1).symm)
  | postInc e loc ih => exact ih.postfixed (congrArg Value.int (Int32.ofInt_add _ 1).symm)
  | postDec e loc ih => exact ih.postfixed (congrArg Value.int (Int32.ofInt_sub _ 1).symm)

/-- The residue of a number that an `int` can hold. -/
theorem eq_toInt_ofInt_iff {m n : Int} :
    (-2 ^ 31 ≤ m ∧ m < 2 ^ 31 ∧ m ≡ n [ZMOD 2 ^ 32]) ↔ m = (Int32.ofInt n).toInt := by
  have hsize : (Int32.ofInt n).toInt = n.bmod (2 ^ 32) := Int32.toInt_ofInt
  constructor
  · rintro ⟨hlo, hhi, hm⟩
    have hrange : m.bmod (2 ^ 32) = m := Int.bmod_eq_of_le (by omega) (by omega)
    rw [hsize, ← hrange, ← Int.emod_bmod n, ← Int.emod_bmod m]
    exact congrArg (Int.bmod · (2 ^ 32)) hm
  · rintro rfl
    refine ⟨Int32.le_toInt _, Int32.toInt_lt _, ?_⟩
    rw [hsize]
    exact Int.bmod_emod

/-- In any state the events of an expression can be applied, report nothing, and put one operand on
top of the others, of type `int`. Its constant is the one number that an `int` can hold which is
congruent to what the expression comes to without bounds. -/
theorem folds_exactly (a : Analyzer) (e : IntExpr) :
    ∃ b n, a.after e.events = .ok b ∧ b.diagnostics = a.diagnostics ∧
      b.operands = ⟨some .int, some (.int n), none⟩ :: a.operands ∧
      ∀ m : Int, (-2 ^ 31 ≤ m ∧ m < 2 ^ 31 ∧ m ≡ e.exact [ZMOD 2 ^ 32]) ↔ m = n.toInt := by
  obtain ⟨t, ht⟩ := e.folds_exact a
  exact ⟨_, _, ht, rfl, rfl, fun m => eq_toInt_ofInt_iff⟩

end IntExpr

end MiniC
