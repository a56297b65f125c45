import MiniC.Proofs.Descent.Simulation

/-!
# How deep calls are nested

A call that does not halt for the depth it is given ends in the same way at every greater depth
(`outcome_call_of_le`). What a method does is built by `>>=` and by looking at entries from what its
calls do, and all that keeps the relation `Refines`.
-/

namespace MiniC

namespace Descent

variable {ts : TokenList} {α β : Type}

/-- Unless `x` is stopped for its depth, `y` does the same. -/
def Refines (x y : Descent α) : Prop :=
  ∀ p, (outcome x p).1 = .error .tooDeep ∨ outcome y p = outcome x p

theorem Refines.refl (x : Descent α) : Refines x x := fun _ => .inr rfl

theorem Refines.bind {x y : Descent α} {k l : α → Descent β} (hx : Refines x y)
    (hk : ∀ a, Refines (k a) (l a)) : Refines (x >>= k) (y >>= l) := by
  intro p
  match ho : outcome x p with
  | (.error halt, q) =>
    rw [outcome_bind_of_error k ho]
    obtain hx | hx := hx p
    · rw [ho] at hx
      obtain rfl : halt = .tooDeep := Except.error.inj hx
      exact .inl rfl
    · exact .inr (outcome_bind_of_error l (hx.trans ho))
  | (.ok a, q) =>
    obtain hx | hx := hx p
    · rw [ho] at hx
      cases hx
    · rw [outcome_bind_of_ok k ho, outcome_bind_of_ok l (hx.trans ho)]
      exact hk a q

/-- Calls that do more let a method do more. -/
theorem refines_body {call call' : Method → Descent Unit} (h : ∀ m, Refines (call m) (call' m))
    (method : Method) : Refines (body ts call method) (body ts call' method) := by
  cases method <;> dsimp only [body]
  all_goals repeat' first
    | with_reducible exact .refl _
    | with_reducible exact h _
    | refine .bind ?_ fun _ => ?_
    | split

theorem refines_call (ts : TokenList) (depth : Nat) (method : Method) :
    Refines (call ts depth method) (call ts (depth + 1) method) := by
  induction depth generalizing method with
  | zero => exact fun _ => .inl rfl
  | succ depth ih => exact refines_body ih method

/-- A call that is deep enough is deep enough at every greater depth. -/
theorem outcome_call_of_le {depth deeper : Nat} (hd : depth ≤ deeper) {method : Method}
    {p : Progress} (h : (outcome (call ts depth method) p).1 ≠ .error .tooDeep) :
    outcome (call ts deeper method) p = outcome (call ts depth method) p := by
  induction hd with
  | refl => rfl
  | step hd ih =>
    obtain hs | hs := refines_call ts _ method p
    · exact absurd (ih ▸ hs) h
    · exact hs.trans ih

end Descent

end MiniC
