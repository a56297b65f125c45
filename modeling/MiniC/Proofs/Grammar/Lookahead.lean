import MiniC.Proofs.Grammar.Derivation
import MiniC.Proofs.Run

/-!
# What one token decides

A goal looks at one token. What stands behind an expression decides where it ends. `looseness`
orders the tokens that can go on with one : postfix operators are the tightest, then binary
operators by precedence, the question mark, assignments and the comma; every other token ends all of
it.

The goals of a `Tier` begin with those in `Tier.before`, and those in `Tier.after` are still to be
met behind a term. They are met by nothing in front of a token that is loose enough
(`Goal.run_after`).

`Starts` says which tokens expressions, statements and items start with, and with that what a goal
does in front of one.
-/

namespace MiniC

/-- How loosely a punctuator goes on with the expression in front of it. -/
def Punct.looseness : Punct → Nat
  | plusPlus | minusMinus => 1
  | star | slash | percent => 2
  | plus | minus => 3
  | less | lessEqual | greater | greaterEqual => 4
  | equalEqual | bangEqual => 5
  | question => 6
  | equal | plusEqual | minusEqual | starEqual | slashEqual | percentEqual => 7
  | comma => 8
  | bang | tilde | colon | leftParen | rightParen | leftBrace | rightBrace | semicolon => 9

/-- How loosely the first of the tokens goes on with the expression in front of it. -/
def looseness : List Token → Nat
  | ⟨.punct p, _⟩ :: _ => p.looseness
  | _ => 9

namespace Punct

variable {p : Punct}

theorem looseness_of_postfixOp? {op : PostfixOp} (h : p.postfixOp? = some op) :
    p.looseness = 1 := by
  cases p <;> first | rfl | cases h

theorem looseness_of_binaryOp? {op : BinaryOp} (h : p.binaryOp? = some op) :
    p.looseness = op.precedence.rank + 1 := by
  cases p <;> cases h <;> rfl

theorem looseness_of_assignOp? {op : AssignOp} (h : p.assignOp? = some op) :
    p.looseness = 7 := by
  cases p <;> first | rfl | cases h

end Punct

namespace Tier

/-- The goals that a term of the tier meets. -/
def before : Tier → List Goal
  | primary => [.primary]
  | postfixed => [.primary, .morePostfixed]
  | unary => [.unary]
  | operands level => [.operandsBelow level, .moreOperands level]
  | conditional => [.conditional]
  | assignment => [.assignment]
  | expression => [.assignment, .moreExpressions]

/-- The last of them, when it can go on with the term. -/
def after : Tier → List Goal
  | postfixed => [.morePostfixed]
  | operands level => [.moreOperands level]
  | expression => [.moreExpressions]
  | primary | unary | conditional | assignment => []

/-- How loose the token behind a term has to be, when the goals of `after` are left. -/
def bound : Tier → Nat
  | primary | postfixed => 0
  | unary => 2
  | operands level => level.rank + 1
  | conditional => 7
  | assignment | expression => 8

/-- How loose the token behind a term has to be to end it. -/
def closed : Tier → Nat
  | primary => 0
  | postfixed | unary => 2
  | operands level => level.rank + 2
  | conditional => 7
  | assignment => 8
  | expression => 9

theorem bound_le_closed (tier : Tier) : tier.bound ≤ tier.closed := by
  cases tier <;> simp [bound, closed]

@[simp] theorem closed_below (level : Precedence) : level.below.closed = level.rank + 1 := by
  cases level <;> rfl

end Tier

namespace Goal

variable {goals : List Goal} {rest : List Token} {stop : Location}

theorem run_morePostfixed_nil (h : 2 ≤ looseness rest) :
    run (morePostfixed :: goals) ⟨rest, stop⟩ = run goals ⟨rest, stop⟩ := by
  refine run_replace_nil ?_ goals
  simp only [action]
  split
  · next p loc more =>
    split
    · next op hop =>
      have hl : looseness (⟨.punct p, loc⟩ :: more) = 1 := Punct.looseness_of_postfixOp? hop
      omega
    · rfl
  · rfl

theorem run_moreOperands_nil {level : Precedence} (h : level.rank + 2 ≤ looseness rest) :
    run (moreOperands level :: goals) ⟨rest, stop⟩ = run goals ⟨rest, stop⟩ := by
  refine run_replace_nil ?_ goals
  simp only [action]
  split
  · next p loc more =>
    split
    · next op hop =>
      have hl : looseness (⟨.punct p, loc⟩ :: more) = op.precedence.rank + 1 :=
        Punct.looseness_of_binaryOp? hop
      rw [if_neg]
      rintro rfl
      omega
    · rfl
  · rfl

theorem run_moreConditional_nil (h : 7 ≤ looseness rest) :
    run (moreConditional :: goals) ⟨rest, stop⟩ = run goals ⟨rest, stop⟩ := by
  refine run_replace_nil ?_ goals
  simp only [action]
  split
  · next loc more => exact absurd h (by simp [looseness, Punct.looseness])
  · rfl

theorem run_moreAssignment_nil (h : 8 ≤ looseness rest) :
    run (moreAssignment :: goals) ⟨rest, stop⟩ = run goals ⟨rest, stop⟩ := by
  refine run_replace_nil ?_ goals
  simp only [action]
  split
  · next p loc more =>
    split
    · next op hop =>
      have hl : looseness (⟨.punct p, loc⟩ :: more) = 7 := Punct.looseness_of_assignOp? hop
      omega
    · rfl
  · rfl

theorem run_moreExpressions_nil (h : 9 ≤ looseness rest) :
    run (moreExpressions :: goals) ⟨rest, stop⟩ = run goals ⟨rest, stop⟩ := by
  refine run_replace_nil ?_ goals
  simp only [action]
  split
  · next loc more => exact absurd h (by simp [looseness, Punct.looseness])
  · rfl

/-- A token that is loose enough ends a term. -/
theorem run_after {tier : Tier} (h : tier.closed ≤ looseness rest) (goals : List Goal) :
    run (tier.after ++ goals) ⟨rest, stop⟩ = run goals ⟨rest, stop⟩ := by
  cases tier with
  | postfixed => exact run_morePostfixed_nil h
  | operands level => exact run_moreOperands_nil h
  | expression => exact run_moreExpressions_nil h
  | primary | unary | conditional | assignment => rfl

/-- What the operators of a precedence stand between is read as a term of its tier. -/
theorem run_operandsBelow (level : Precedence) (goals : List Goal) (ts : TokenList) :
    run (operandsBelow level :: goals) ts = run (level.below.before ++ goals) ts := by
  cases level with
  | multiplicative => rfl
  | equality | relational | additive => exact run_replace rfl goals

end Goal

/-! ## The first token -/

namespace Token.Kind

/-- Whether a primary expression can start with a token of the kind. -/
def startsPrimary : Token.Kind → Bool
  | literal _ | name _ | punct .leftParen => true
  | _ => false

/-- Whether an expression can start with a token of the kind. -/
def startsTerm : Token.Kind → Bool
  | literal _ | name _ | punct .leftParen => true
  | punct p => p.unaryOp?.isSome
  | type _ | keyword _ => false

/-- Whether a statement can start with a token of the kind. -/
def startsStatement : Token.Kind → Bool
  | punct .semicolon | punct .leftBrace => true
  | keyword word => word ≠ .elseKw
  | kind => kind.startsTerm

/-- Whether an item can start with a token of the kind. -/
def startsItem : Token.Kind → Bool
  | type _ => true
  | kind => kind.startsStatement

end Token.Kind

/-- The first token is of one of the kinds. -/
def Starts (kinds : Token.Kind → Bool) (tokens : List Token) : Prop :=
  ∃ t rest, tokens = t :: rest ∧ kinds t.kind = true

theorem Starts.append {kinds : Token.Kind → Bool} {tokens : List Token} (h : Starts kinds tokens)
    (more : List Token) : Starts kinds (tokens ++ more) := by
  obtain ⟨t, rest, rfl, ht⟩ := h
  exact ⟨t, rest ++ more, rfl, ht⟩

namespace Term

theorem starts {tier : Tier} (e : Term tier) : Starts Token.Kind.startsTerm e.tokens := by
  induction e with
  | literal value loc | identifier name loc | parens left e right => exact ⟨_, _, rfl, rfl⟩
  | @unary p op h loc e =>
    refine ⟨_, _, rfl, ?_⟩
    cases p <;> first | rfl | cases h
  | ofPrimary e ih | ofPostfixed e ih | ofBelow e ih | ofOperands e ih | ofConditional e ih
  | ofAssignment e ih => exact ih
  | postfixed e h loc ih => exact ih.append _
  | binary lhs h hl loc rhs ih => exact ih.append _
  | ternary condition question yes colon no ih =>
    rw [tokens, List.append_assoc]
    exact ih.append _
  | assign target h loc source ih => exact ih.append _
  | comma first loc second ih => exact ih.append _

theorem starts_postfixed : ∀ e : Term .postfixed, Starts Token.Kind.startsPrimary e.tokens
  | ofPrimary (literal value loc) | ofPrimary (identifier name loc)
  | ofPrimary (parens left e right) => ⟨_, _, rfl, rfl⟩
  | postfixed e _ _ => (starts_postfixed e).append _

end Term

namespace Starts

variable {ts : TokenList} {kinds : Token.Kind → Bool}

theorem imp {kinds' : Token.Kind → Bool} (hk : ∀ kind, kinds kind = true → kinds' kind = true)
    {tokens : List Token} (h : Starts kinds tokens) : Starts kinds' tokens := by
  obtain ⟨t, rest, rfl, ht⟩ := h
  exact ⟨t, rest, rfl, hk _ ht⟩

/-- What a goal does in front of a token of the kinds, when it does the same for each. -/
theorem action_eq {goal : Goal} {act : Action} (h : Starts kinds ts.tokens)
    (hk : ∀ kind loc rest stop, kinds kind = true →
      goal.action ⟨⟨kind, loc⟩ :: rest, stop⟩ = act) : goal.action ts = act := by
  obtain ⟨⟨kind, loc⟩, rest, ht, hs⟩ := h
  obtain ⟨tokens, stop⟩ := ts
  obtain rfl : tokens = _ := ht
  exact hk kind loc rest stop hs

theorem action_simple (h : Starts Token.Kind.startsTerm ts.tokens) : Goal.simple.action ts =
    .replace [.expression, .sign .semicolon "after expression" none] := by
  refine h.action_eq fun kind loc rest stop hs => ?_
  cases kind with
  | punct p => cases p <;> first | rfl | cases hs
  | _ => rfl

theorem action_increment (h : Starts Token.Kind.startsTerm ts.tokens) :
    Goal.increment.action ts = .replace [.expression] := by
  refine h.action_eq fun kind loc rest stop hs => ?_
  cases kind with
  | punct p => cases p <;> first | rfl | cases hs
  | _ => rfl

theorem action_returnValue (h : Starts Token.Kind.startsTerm ts.tokens) (loc : Location) :
    (Goal.returnValue loc).action ts = .replace [.expression,
      .sign .semicolon "after return" none, .emit (.returned true) loc] := by
  refine h.action_eq fun kind loc rest stop hs => ?_
  cases kind with
  | punct p => cases p <;> first | rfl | cases hs
  | _ => rfl

theorem action_item (h : Starts Token.Kind.startsStatement ts.tokens) :
    Goal.item.action ts = .replace [.statement] := by
  refine h.action_eq fun kind loc rest stop hs => ?_
  cases kind with
  | type => cases hs
  | _ => rfl

theorem action_items (h : Starts Token.Kind.startsItem ts.tokens) (joined : Bool) :
    (Goal.items joined).action ts =
      .replace (.item :: Goal.joinedBy joined (placeOf ts.tokens) ++ [.items true]) := by
  obtain ⟨⟨kind, loc⟩, rest, ht, hs⟩ := h
  obtain ⟨tokens, stop⟩ := ts
  obtain rfl : tokens = _ := ht
  cases kind with
  | punct p => cases p <;> first | rfl | cases hs
  | _ => rfl

end Starts

theorem Declaration.starts (d : Declaration) : Starts Token.Kind.startsItem d.tokens :=
  ⟨_, _, rfl, rfl⟩

/-- An expression statement starts with a semicolon or an expression. -/
theorem Simple.starts (s : Simple) :
    Starts (fun kind => kind = .punct .semicolon || kind.startsTerm) s.tokens := by
  cases s with
  | empty semicolon => exact ⟨_, _, rfl, rfl⟩
  | expression e semicolon =>
    refine (e.starts.append _).imp fun kind h => ?_
    simp [h]

theorem Simple.action_statement (s : Simple) (rest : List Token) (stop : Location) :
    Goal.statement.action ⟨s.tokens ++ rest, stop⟩ = .replace [.simple] := by
  refine (s.starts.append rest).action_eq fun kind loc rest stop hs => ?_
  cases kind with
  | punct p => cases p <;> first | rfl | cases hs
  | keyword => cases hs
  | _ => rfl

namespace Code

theorem starts_statement (s : Code .statement) : Starts Token.Kind.startsStatement s.tokens := by
  cases s with
  | simple s =>
    refine s.starts.imp fun kind hs => ?_
    cases kind with
    | punct p => cases p <;> first | rfl | cases hs
    | keyword => cases hs
    | _ => exact hs
  | _ => exact ⟨_, _, rfl, rfl⟩

theorem starts_item : ∀ i : Code .item, Starts Token.Kind.startsItem i.tokens
  | declaration d => d.starts
  | statement s => s.starts_statement.imp fun kind hs => by cases kind <;> first | rfl | exact hs

end Code

end MiniC
