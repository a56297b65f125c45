import MiniC.Proofs.Grammar.Completion

/-!
# What a parse can be stuck for

Between the last token that was read and an error, goals are replaced by others with the token of
the error in view. `Goal.Asks` says which kinds of tokens the goals of a stack can be stuck for : a
stack that asks for a kind still does when its first goal is put back for those in its place
(`Goal.asks_of_replace`), and a goal that fails asks for the first token of its completion
(`Goal.mem_ask_of_fail`).

None of these kinds goes on with anything, so in front of one of them every goal is replaced as it
was in front of the token of the error (`Goal.action_of_asks`). The one exception are external
declarations, which look further ahead.
-/

namespace MiniC

namespace Goal

/-- The kinds of tokens that the goal, or one in its place, can be stuck for. -/
def ask : Goal → List Token.Kind
  | externals _ | external | items _ | item => [.type .int, .name "x"]
  | parameters => [.type .int]
  | increment => [.name "x"]
  | returnValue _ => [.name "x", .punct .semicolon]
  | goal => goal.completion.take 1

/-- One of the goals up to the first that reads can be stuck for a token of the kind. -/
def Asks : List Goal → Token.Kind → Prop
  | [], _ => False
  | goal :: goals, kind => kind ∈ goal.ask ∨ goal.reads = false ∧ Asks goals kind

variable {goal : Goal} {goals new : List Goal} {ts : TokenList} {kind : Token.Kind}

theorem endsAll_of_mem_ask (hp : goal.Precedes goals) (ha : kind ∈ goal.ask) :
    kind.endsAll = true := by
  cases goal with
  | sign p context rule =>
    have hl : p.looseness = 9 := hp
    obtain rfl := List.mem_singleton.1 ha
    simp [Token.Kind.endsAll, hl]
  | externals | external | items | item | returnValue =>
    rcases List.mem_cons.1 ha with rfl | ha
    · rfl
    · obtain rfl := List.mem_singleton.1 ha
      rfl
  | function | parameters | parameter | declaration | declarator | statement | simple | increment
  | expression | assignment | conditional | operands | unary | primary =>
    obtain rfl := List.mem_singleton.1 ha
    rfl
  | parameterName | moreParameters | initializer | moreDeclarators | elseBranch | moreExpressions
  | moreAssignment | moreConditional | moreOperands | morePostfixed | emit =>
    exact absurd ha List.not_mem_nil

theorem endsAll_of_asks (hs : Stacked goals) (ha : Asks goals kind) : kind.endsAll = true := by
  induction goals with
  | nil => exact ha.elim
  | cons goal goals ih =>
    rcases ha with ha | ⟨-, ha⟩
    · exact endsAll_of_mem_ask hs.1 ha
    · exact ih hs.2 ha

/-- Only the first goal that reads counts, and those in front of it. -/
theorem asks_of_reads (h : goal.reads = true) : Asks (goal :: goals) kind ↔ kind ∈ goal.ask := by
  simp [Asks, h]

theorem asks_of_ask_eq_nil (hn : goal.ask = []) (hr : goal.reads = false) :
    Asks (goal :: goals) kind ↔ Asks goals kind := by
  simp [Asks, hn, hr]

/-- The closing sign is all that the goals in front of it can be stuck for, if nothing is left for
them to read. -/
theorem eq_of_asks_sign {p : Punct} {context : String} {rule : Option Rule}
    (hn : new = [] ∨ ∃ goal, new = [goal] ∧ goal.ask = [] ∧ goal.reads = false)
    (ha : Asks (new ++ sign p context rule :: goals) kind) : kind = .punct p := by
  rcases hn with rfl | ⟨goal, rfl, hg, hr⟩
  · exact List.mem_singleton.1 ((asks_of_reads rfl).1 ha)
  · exact List.mem_singleton.1 ((asks_of_reads rfl).1 ((asks_of_ask_eq_nil hg hr).1 ha))

/-- A goal that is replaced without reading a token is replaced in the same way in front of a token
that the goals in its place can be stuck for. -/
theorem action_of_asks (hs : Stacked (goal :: goals)) (hne : goal ≠ external)
    (h : goal.action ts = .replace new) (ha : Asks (new ++ goals) kind) (rest : List Token)
    (stop : Location) : goal.action ⟨⟨kind, ts.place⟩ :: rest, stop⟩ = .replace new := by
  have he : kind.endsAll = true := endsAll_of_asks (stacked_of_goals? hs (by rw [h]; rfl)) ha
  obtain ⟨tokens, stop'⟩ := ts
  obtain ⟨hp, -⟩ := hs
  cases goal with
  | external => contradiction
  | initializer | elseBranch | moreParameters | moreDeclarators | moreExpressions | moreAssignment
  | moreConditional | moreOperands | morePostfixed =>
    obtain rfl := eq_of_otherwise? rfl h
    refine action_of_otherwise? rfl fun t more ht => ?_
    obtain ⟨rfl, -⟩ := List.cons.inj ht
    exact he
  | expression | assignment | conditional | operands => exact h
  | sign | function | parameter | declaration | declarator | primary | emit =>
    simp only [action, primaryAction] at h
    (repeat' split at h) <;> cases h
  | externals joined =>
    obtain rfl : goals = [] := hp
    simp only [action] at h
    split at h
    · obtain rfl := Action.replace.inj h
      exact ha.elim
    · exact h
  | item | statement | returnValue | simple | unary =>
    simp only [action, statementAction] at h
    -- what takes the place of such a goal starts with one that reads
    (repeat' split at h) <;> cases h <;>
      obtain rfl := List.mem_singleton.1 ((asks_of_reads rfl).1 ha) <;> rfl
  | parameters =>
    obtain ⟨context, rule, more, rfl⟩ := hp
    simp only [action] at h
    split at h <;> cases h <;>
      obtain rfl := List.mem_singleton.1 ((asks_of_reads rfl).1 ha) <;> rfl
  | increment =>
    obtain ⟨context, rule, more, rfl⟩ := hp
    simp only [action] at h
    split at h <;> cases h
    · obtain rfl := eq_of_asks_sign (.inr ⟨_, rfl, rfl, rfl⟩) ha
      rfl
    · obtain rfl := List.mem_singleton.1 ((asks_of_reads rfl).1 ha)
      rfl
  | parameterName type =>
    obtain ⟨context, rule, more, rfl⟩ := hp
    simp only [action] at h
    split at h <;> cases h
    obtain rfl := eq_of_asks_sign (.inr ⟨_, rfl, rfl, rfl⟩) ha
    rfl
  | items joined =>
    obtain ⟨context, rule, more, rfl⟩ := hp
    have hend (loc : Location) : (if joined then [] else [emit .emptyBlock loc]) = [] ∨
        ∃ goal, (if joined then [] else [emit .emptyBlock loc]) = [goal] ∧ goal.ask = [] ∧
          goal.reads = false := by
      cases joined with
      | true => exact .inl rfl
      | false => exact .inr ⟨_, rfl, rfl, rfl⟩
    simp only [action] at h
    split at h <;> cases h
    · obtain rfl := eq_of_asks_sign (hend _) ha
      rfl
    · obtain rfl := eq_of_asks_sign (hend _) ha
      rfl
    · rcases List.mem_cons.1 ((asks_of_reads rfl).1 ha) with rfl | ha
      · rfl
      · obtain rfl := List.mem_singleton.1 ha
        rfl

/-- What the goals in the place of another can be stuck for, it can be stuck for itself. -/
theorem asks_of_replace (h : goal.action ts = .replace new) (ha : Asks (new ++ goals) kind) :
    Asks (goal :: goals) kind := by
  cases goal with
  | sign | function | parameter | declaration | declarator | primary | emit =>
    simp only [action, primaryAction] at h
    (repeat' split at h) <;> cases h
  | operands level =>
    cases h
    cases level <;> exact .inl ((asks_of_reads rfl).1 ha)
  | externals joined | items joined =>
    cases joined <;> simp only [action] at h <;> split at h <;> cases h <;>
      simp_all [Asks, ask, completion, reads]
  | _ =>
    simp only [action, externalAction, statementAction] at h
    (repeat' split at h) <;> cases h <;> simp_all [Asks, ask, completion, reads]

/-- A goal fails when it is stuck. -/
theorem mem_ask_of_fail {what : Expectation} (h : goal.action ts = .fail what) :
    ∃ kind more, goal.completion = kind :: more ∧ kind ∈ goal.ask := by
  cases goal with
  | sign | external | function | parameter | declaration | declarator | primary =>
    exact ⟨_, _, rfl, List.mem_cons_self⟩
  | _ =>
    simp only [action, statementAction] at h
    (repeat' split at h) <;> cases h

end Goal

end MiniC
