import MiniC.Proofs.Descent.Simulation

/-!
# The runs of the methods

Every method of the parser performs the run of some goals (`Method.run`). That is proved for one
method at a time, from what the calls do that the method makes (`CallsPerform`) : those it makes
before it reads a token are of methods of a smaller `Method.weight`, and all others find fewer
tokens.
-/

namespace MiniC

namespace Descent

namespace Method

/-- More than the weights of the methods that a method calls before it reads a token. -/
def weight : Method → Nat
  | moreDeclarators | moreExpressions | moreOperands _ | morePostfixed | parameter | declaration
  | declarator | named _ | ifThen | whileLoop | forLoop | primary => 0
  | function | parameters | postfixed => 1
  | external | unary => 2
  | program _ => 3
  | operands level => 2 + level.rank
  | conditional => 7
  | assignment => 8
  | expression => 9
  | simple | returned => 10
  | statement => 11
  | item => 12
  | items _ => 13

theorem weight_lt (method : Method) : method.weight < 14 := by
  cases method with
  | operands level => cases level <;> decide
  | _ => simp [weight]

theorem weight_operandsBelow (level : Precedence) :
    (operandsBelow level).weight < (operands level).weight := by
  cases level <;> decide

/-- The goals that a call meets where it begins, behind a token at `last`. -/
def goals (last : Location) : Method → List Goal
  | program joined => [.externals joined]
  | external => [.external]
  | function => [.function false]
  | named typed => [.function typed]
  | parameters => [.parameters]
  | parameter => [.parameter]
  | declaration => [.declaration]
  | moreDeclarators => [.moreDeclarators]
  | declarator => [.declarator]
  | items joined => [.items joined]
  | item => [.item]
  | statement => [.statement]
  | simple => [.simple]
  | returned => [.returnValue last]
  | ifThen => [.sign .leftParen "after 'if'" none, .expression,
      .sign .rightParen "after if condition" none, .statement, .elseBranch last]
  | whileLoop => [.sign .leftParen "after 'while'" none, .expression,
      .sign .rightParen "after while condition" none, .statement, .emit .whileLoop last]
  | forLoop => [.sign .leftParen "after 'for'" none, .simple, .simple, .increment,
      .sign .rightParen "after for clauses" none, .statement, .emit .forLoop last]
  | expression => [.expression]
  | moreExpressions => [.moreExpressions]
  | assignment => [.assignment]
  | conditional => [.conditional]
  | operands level => [.operands level]
  | moreOperands level => [.moreOperands level]
  | unary => [.unary]
  | postfixed => [.primary, .morePostfixed]
  | morePostfixed => [.morePostfixed]
  | primary => [.primary]

/-- The run that a call performs behind the first `n` tokens. A function definition may have a type
in front of what its goal reads. -/
def run (method : Method) (ts : TokenList) (n : Nat) : Run :=
  match method, (ts.drop n).tokens with
  | function, ⟨.type type, loc⟩ :: _ =>
    Goal.run [.emit (.typeSpecifier type) loc, .function true] (ts.drop (n + 1))
  | _, _ => Goal.run (method.goals (ts.drop (n - 1)).place) (ts.drop n)

theorem run_operandsBelow (level : Precedence) (ts : TokenList) (n : Nat) :
    (operandsBelow level).run ts n = Goal.run [Goal.operandsBelow level] (ts.drop n) := by
  cases level <;> rfl

theorem run_function_of_type {ts : TokenList} {n : Nat} {type : DataType} {loc : Location}
    {rest : List Token} (ht : (ts.drop n).tokens = ⟨.type type, loc⟩ :: rest) :
    function.run ts n =
      Goal.run [.emit (.typeSpecifier type) loc, .function true] (ts.drop (n + 1)) := by
  rw [run.eq_def, ht]

theorem run_function_of_ne {ts : TokenList} {n : Nat}
    (h : ∀ type loc rest, (ts.drop n).tokens ≠ ⟨.type type, loc⟩ :: rest) :
    function.run ts n = Goal.run [.function false] (ts.drop n) := by
  rw [run.eq_def]
  split
  · exact absurd ‹_› (h _ _ _)
  · rfl

end Method

variable {ts : TokenList} {p : Progress}

/-- The calls that a method makes behind the first `n` tokens perform their runs : those behind
them of a lighter method, and all those further on. -/
structure CallsPerform (ts : TokenList) (call : Method → Descent Unit) (n : Nat) (method : Method) :
    Prop where
  here : ∀ {q m}, InRange ts q → q.position = n → m.weight < method.weight →
    Performs ts q (call m) (m.run ts q.position)
  later : ∀ {q m}, InRange ts q → n < q.position → Performs ts q (call m) (m.run ts q.position)

/-- A part of a sequence is joined with those before it, and the work goes on. -/
theorem performs_joined {joined : Bool} {loc : Location} {x : Descent Unit} {goals : List Goal}
    (hp : InRange ts p)
    (hx : ∀ q, InRange ts q → p.position ≤ q.position →
      Performs ts q x (Goal.run goals (ts.drop q.position))) :
    Performs ts p (if joined = true then emit .sequence loc >>= fun _ => x else x)
      (Goal.run (Goal.joinedBy joined loc ++ goals) (ts.drop p.position)) := by
  cases joined
  · exact hx p hp (Nat.le_refl _)
  · exact .then (performs_emit hp ..) fun q hq hle _ => hx q hq hle

/-- A loop over the parts behind commas. -/
theorem performs_commas {x more : Descent Unit} {part rest : Goal} (hp : InRange ts p)
    (hx : ∀ {q}, InRange ts q → p.position < q.position →
      Performs ts q x (Goal.run [part] (ts.drop q.position)))
    (hmore : ∀ {q}, InRange ts q → p.position < q.position →
      Performs ts q more (Goal.run [rest] (ts.drop q.position)))
    (hyes : ∀ loc tokens, (ts.drop p.position).tokens = ⟨.punct .comma, loc⟩ :: tokens →
      rest.action (ts.drop p.position) = .read [part, .emit .comma loc, rest] tokens)
    (hno : (∀ loc tokens, (ts.drop p.position).tokens ≠ ⟨.punct .comma, loc⟩ :: tokens) →
      rest.action (ts.drop p.position) = .replace []) :
    Performs ts p
      (accept ts (.punct .comma) >>= fun b => if b = true then
        previous ts >>= fun e => x >>= fun _ => emit .comma e.location >>= fun _ => more
      else pure ()) (Goal.run [rest] (ts.drop p.position)) := by
  refine .accept hp (fun loc tokens ht q hq hpos => .previous_of_cons hq ht hpos ?_) fun hne => ?_
  · rw [run_next ht (hyes loc tokens ht) hpos]
    refine .then (hx hq (by omega)) fun q₁ hq₁ _ _ => ?_
    exact .then (performs_emit hq₁ ..) fun q₂ hq₂ _ _ => hmore hq₂ (by omega)
  · rw [Goal.run_replace_nil (hno hne)]
    exact performs_pure hp

end Descent

end MiniC
