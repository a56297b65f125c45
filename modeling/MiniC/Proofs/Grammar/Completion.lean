import MiniC.Proofs.Grammar.Lookahead

/-!
# Every stack of goals can be met

`Goal.completion` is a short text that meets a goal. Goals that are met one after the other are met
by their completions one after the other, if what stands behind a goal ends it : a stack is
`Goal.Stacked` if it says so of each of its goals, and stays so with every action
(`Goal.stacked_of_goals?`).

In front of the completion of its stack no goal fails, and what is left behind its action is the
completion of the goals that are left (`Goal.action_completion`). So the run succeeds
(`Goal.run_completion`).
-/

namespace MiniC

/-- Whether nothing goes on in front of a token of the kind : it is no operator and no else. -/
def Token.Kind.endsAll : Token.Kind → Bool
  | type _ | name _ => true
  | punct p => p.looseness = 9
  | literal _ | keyword _ => false

namespace Goal

/-- A text that meets the goal. -/
def completion : Goal → List Token.Kind
  | sign p _ _ => [.punct p]
  | external | declaration => [.type .int, .name "x", .punct .semicolon]
  | function _ =>
    [.name "x", .punct .leftParen, .punct .rightParen, .punct .leftBrace, .punct .rightBrace]
  | parameter => [.type .int]
  | item | statement | simple | returnValue _ => [.name "x", .punct .semicolon]
  | declarator | expression | assignment | conditional | operands _ | unary | primary => [.name "x"]
  | externals _ | parameters | parameterName _ | moreParameters | initializer _ _
  | moreDeclarators | items _ | elseBranch _ | increment | moreExpressions | moreAssignment
  | moreConditional | moreOperands _ | morePostfixed | emit _ _ => []

/-- The completions of the goals, all of them at one place. -/
def completionAt (loc : Location) (goals : List Goal) : List Token :=
  (goals.flatMap completion).map (⟨·, loc⟩)

/-- What has to stand behind the goal stands there : the end of the program behind its external
declarations, the closing sign behind a list. -/
def Precedes : Goal → List Goal → Prop
  | externals _, goals => goals = []
  | parameters, goals | parameter, goals | parameterName _, goals | moreParameters, goals
  | increment, goals => ∃ context rule more, goals = sign .rightParen context rule :: more
  | items _, goals => ∃ context rule more, goals = sign .rightBrace context rule :: more
  | sign p _ _, _ => p.looseness = 9
  | external, _ | function _, _ | declaration, _ | declarator, _ | initializer _ _, _
  | moreDeclarators, _ | item, _ | statement, _ | returnValue _, _ | elseBranch _, _ | simple, _
  | expression, _ | moreExpressions, _ | assignment, _ | moreAssignment, _ | conditional, _
  | moreConditional, _ | operands _, _ | moreOperands _, _ | unary, _ | primary, _
  | morePostfixed, _ | emit _ _, _ => True

/-- Behind every goal stands what has to. -/
def Stacked : List Goal → Prop
  | [] => True
  | goal :: goals => goal.Precedes goals ∧ Stacked goals

variable {goal : Goal} {goals new : List Goal} {ts : TokenList} {loc : Location}

/-- The goals in the place of another bring what has to stand behind them. -/
theorem stacked_of_goals? (hs : Stacked (goal :: goals))
    (h : (goal.action ts).goals? = some new) : Stacked (new ++ goals) := by
  revert h
  obtain ⟨hp, hs⟩ := hs
  cases goal with
  | operands level | moreOperands level =>
    cases level <;> simp only [action] <;> (repeat' split) <;> intro h <;> cases h <;>
      simp [Stacked, Precedes, operandsBelow, Precedence.tighter?, hs]
  | externals joined | items joined =>
    cases joined <;> simp only [action] <;> (repeat' split) <;> intro h <;> cases h <;>
      simp_all [Stacked, Precedes, joinedBy]
  | sign p context rule =>
    simp only [action]
    (repeat' split) <;> intro h <;> cases h
    cases rule <;> simp [Stacked, Precedes, hs]
  | _ =>
    simp only [action, externalAction, statementAction, primaryAction]
    (repeat' split) <;> intro h <;> cases h <;>
      simp_all [Stacked, Precedes, Punct.looseness]

@[simp] theorem completionAt_cons (loc : Location) (goal : Goal) (goals : List Goal) :
    completionAt loc (goal :: goals) =
      goal.completion.map (⟨·, loc⟩) ++ completionAt loc goals := by
  simp [completionAt]

/-- The completion of a stack starts with a token that ends all that could go on. -/
theorem completionAt_cases (hs : Stacked goals) (loc : Location) : completionAt loc goals = [] ∨
    ∃ kind rest, kind.endsAll = true ∧ completionAt loc goals = ⟨kind, loc⟩ :: rest := by
  induction goals with
  | nil => exact .inl rfl
  | cons goal goals ih =>
    obtain ⟨hp, hs⟩ := hs
    rw [completionAt_cons]
    cases goal with
    | sign p context rule =>
      have hl : p.looseness = 9 := hp
      exact .inr ⟨_, _, by simp [Token.Kind.endsAll, hl], rfl⟩
    | external | function | parameter | declaration | declarator | item | statement | returnValue
    | simple | expression | assignment | conditional | operands | unary | primary =>
      exact .inr ⟨_, _, rfl, rfl⟩
    | _ => exact ih hs

/-- The goals in the place of a goal that goes on with what was read, when it does not go on. -/
def otherwise? : Goal → Option (List Goal)
  | initializer name loc => some [emit (.declarator name) loc]
  | elseBranch loc => some [emit .ifThen loc]
  | moreParameters | moreDeclarators | moreExpressions | moreAssignment | moreConditional
  | moreOperands _ | morePostfixed => some []
  | externals _ | external | function _ | parameters | parameter | parameterName _ | declaration
  | declarator | items _ | item | statement | returnValue _ | simple | increment | expression
  | assignment | conditional | operands _ | unary | primary | sign _ _ _ | emit _ _ => none

theorem eq_of_otherwise? {other : List Goal} (h : goal.otherwise? = some other)
    (ha : goal.action ts = .replace new) : new = other := by
  cases goal <;> cases h <;> simp only [action] at ha <;> (repeat' split at ha) <;>
    cases ha <;> rfl

/-- It does not go on in front of the end, or of a token that ends all. -/
theorem action_of_otherwise? (h : goal.otherwise? = some new)
    (hk : ∀ t rest, ts.tokens = t :: rest → t.kind.endsAll = true) :
    goal.action ts = .replace new := by
  obtain ⟨_ | ⟨⟨kind, loc⟩, rest⟩, stop⟩ := ts
  · cases goal <;> cases h <;> rfl
  · have hk : kind.endsAll = true := hk _ rest rfl
    cases kind with
    | literal | keyword => cases hk
    | type | name => cases goal <;> cases h <;> rfl
    | punct p =>
      cases p with
      | colon | leftParen | rightParen | leftBrace | rightBrace | semicolon | bang | tilde =>
        cases goal <;> cases h <;> rfl
      | _ => cases hk

/-- What an action does in front of the completion of its stack : it does not fail, and the
completion of the goals that are left is what is left of it. -/
def Finishes (loc : Location) (goals : List Goal) (ts : TokenList) : Action → Prop
  | .emit _ => True
  | .replace new => completionAt loc (new ++ goals) = ts.tokens
  | .read new rest => completionAt loc (new ++ goals) = rest
  | .fail _ => False

theorem action_completion (hs : Stacked (goal :: goals))
    (ht : ts.tokens = completionAt loc (goal :: goals)) :
    Finishes loc goals ts (goal.action ts) := by
  obtain ⟨tokens, stop⟩ := ts
  obtain rfl : tokens = _ := ht
  obtain ⟨hp, hs⟩ := hs
  cases goal with
  | emit => trivial
  | externals joined =>
    obtain rfl : goals = [] := hp
    rfl
  | sign p context rule =>
    cases rule <;> simp [action, Finishes, completion]
  | parameters | parameter | parameterName | moreParameters | increment =>
    obtain ⟨context, rule, more, rfl⟩ := hp
    rfl
  | items joined =>
    obtain ⟨context, rule, more, rfl⟩ := hp
    cases joined <;> rfl
  | external | function | declaration | declarator | item | statement | returnValue | simple
  | expression | assignment | conditional | unary | primary => rfl
  | operands level => cases level <;> rfl
  | initializer | moreDeclarators | elseBranch | moreExpressions | moreAssignment | moreConditional
  | moreOperands | morePostfixed =>
    rw [action_of_otherwise? rfl fun t rest ht => ?_]
    · rfl
    · obtain hn | ⟨kind, more, hk, hn⟩ := completionAt_cases hs loc
      · exact absurd (hn.symm.trans ht) (List.cons_ne_nil t rest).symm
      · obtain ⟨rfl, -⟩ := List.cons.inj (hn.symm.trans ht)
        exact hk

/-- The run of a stack in front of its completion reads all of it. -/
theorem run_completion (hs : Stacked goals) (ht : ts.tokens = completionAt loc goals) :
    (run goals ts).result = .ok ⟨[], ts.stop⟩ := by
  fun_induction run goals ts with
  | case1 ts =>
    obtain ⟨tokens, stop⟩ := ts
    obtain rfl : tokens = [] := ht
    rfl
  | case2 ts goal goals event ha r =>
    rename_i ih
    obtain rfl := eq_emit ha
    exact ih hs.2 ht
  | case3 ts goal goals new ha ih =>
    have hf := action_completion hs ht
    rw [ha] at hf
    exact ih (stacked_of_goals? hs (by rw [ha]; rfl)) hf.symm
  | case4 ts goal goals new rest ha ih =>
    have hf := action_completion hs ht
    rw [ha] at hf
    exact ih (stacked_of_goals? hs (by rw [ha]; rfl)) hf.symm
  | case5 ts goal goals what ha =>
    have hf := action_completion hs ht
    rw [ha] at hf
    exact hf.elim

end Goal

end MiniC
