import MiniC.Proofs.Descent.Method

/-!
# Expressions by descent

The methods for expressions perform the runs of their goals, one for every precedence.
-/

namespace MiniC

namespace Descent

variable {ts : TokenList} {call : Method → Descent Unit} {p : Progress}

theorem performs_expression (h : CallsPerform ts call p.position .expression) (hp : InRange ts p) :
    Performs ts p (body ts call .expression) (Goal.run [.expression] (ts.drop p.position)) := by
  rw [body, run_same (by rw [Goal.action])]
  exact .then (h.here hp rfl (by decide)) fun q hq _ hlt => h.later hq (hlt rfl)

theorem performs_moreExpressions (h : CallsPerform ts call p.position .moreExpressions)
    (hp : InRange ts p) :
    Performs ts p (body ts call .moreExpressions)
      (Goal.run [.moreExpressions] (ts.drop p.position)) := by
  rw [body]
  exact performs_commas hp h.later h.later (fun loc rest ht => by rw [Goal.action, ht])
    fun hno => by simp [Goal.action]

/-- The operator that a token list begins with. -/
theorem operator_cases {us : TokenList} (op? : Punct → Option α) :
    (∃ op sign loc rest, us.tokens = ⟨.punct sign, loc⟩ :: rest ∧ op? sign = some op ∧
      (punct? us.next.kind).bind op? = some op) ∨
    (∀ sign loc rest, us.tokens = ⟨.punct sign, loc⟩ :: rest → op? sign = none) ∧
      (punct? us.next.kind).bind op? = none := by
  obtain ⟨_ | ⟨⟨_ | _ | _ | _ | sign, loc⟩, rest⟩, stop⟩ := us
  all_goals try exact .inr ⟨by simp, rfl⟩
  cases hop : op? sign with
  | none => exact .inr ⟨by simp +contextual [hop], hop⟩
  | some op => exact .inl ⟨op, sign, loc, rest, rfl, hop, hop⟩

theorem performs_assignment (h : CallsPerform ts call p.position .assignment) (hp : InRange ts p) :
    Performs ts p (body ts call .assignment) (Goal.run [.assignment] (ts.drop p.position)) := by
  rw [body, run_same (by rw [Goal.action])]
  refine .then (h.here hp rfl (by decide)) fun q₁ hq₁ _ hlt => .peek hq₁ ?_
  have hlt : p.position < q₁.position := hlt rfl
  obtain ⟨op, sign, loc, rest, ht, hop, heq⟩ | ⟨hno, heq⟩ := operator_cases Punct.assignOp?
  · rw [heq]
    refine .advance hq₁ ht fun q₂ hq₂ hpos => ?_
    rw [run_next ht (by simp only [Goal.action, ht, hop]; rfl) hpos, TokenList.next_of_cons ht]
    exact .then (h.later hq₂ (by omega)) fun q₃ hq₃ _ _ => performs_emit hq₃ ..
  · have ha : Goal.moreAssignment.action (ts.drop q₁.position) = .replace [] := by
      rw [Goal.action]
      split
      · rw [hno _ _ _ ‹_›]
      · rfl
    rw [heq, Goal.run_replace_nil ha]
    exact performs_pure hq₁

theorem performs_conditional (h : CallsPerform ts call p.position .conditional)
    (hp : InRange ts p) :
    Performs ts p (body ts call .conditional) (Goal.run [.conditional] (ts.drop p.position)) := by
  rw [body, run_same (by rw [Goal.action])]
  refine .then (h.here hp rfl (by decide)) fun q₁ hq₁ _ hlt => ?_
  have hlt : p.position < q₁.position := hlt rfl
  refine .accept hq₁ (fun loc rest ht q₂ hq₂ hpos => .previous_of_cons hq₂ ht hpos ?_) fun hno => ?_
  · rw [run_next ht (by rw [Goal.action, ht]) hpos]
    refine .then (h.later hq₂ (by omega)) fun q₃ hq₃ _ _ => ?_
    refine .then (performs_expectSign hq₃ ..) fun q₄ hq₄ _ _ => ?_
    exact .then (h.later hq₄ (by omega)) fun q₅ hq₅ _ _ => performs_emit hq₅ ..
  · rw [Goal.run_replace_nil (by simp [Goal.action])]
    exact performs_pure hq₁

theorem performs_operands {level : Precedence}
    (h : CallsPerform ts call p.position (.operands level)) (hp : InRange ts p) :
    Performs ts p (body ts call (.operands level))
      (Goal.run [.operands level] (ts.drop p.position)) := by
  rw [body, run_same (by rw [Goal.action])]
  have hbelow : Performs ts p (call (Method.operandsBelow level))
      (Goal.run [Goal.operandsBelow level] (ts.drop p.position)) := by
    rw [← Method.run_operandsBelow]
    exact h.here hp rfl (Method.weight_operandsBelow level)
  exact .then hbelow fun q hq _ hlt => h.later hq (hlt (Goal.reads_operandsBelow level))

theorem performs_moreOperands {level : Precedence}
    (h : CallsPerform ts call p.position (.moreOperands level)) (hp : InRange ts p) :
    Performs ts p (body ts call (.moreOperands level))
      (Goal.run [.moreOperands level] (ts.drop p.position)) := by
  rw [body]
  refine .peek hp ?_
  obtain ⟨op, sign, loc, rest, ht, hop, heq⟩ | ⟨hno, heq⟩ := operator_cases Punct.binaryOp?
  · rw [heq]
    by_cases hl : op.precedence = level
    · rw [Option.filter_some_pos (by simpa using hl)]
      refine .advance hp ht fun q₁ hq₁ hpos => ?_
      rw [run_next ht (by simp only [Goal.action, ht, hop, if_pos hl]; rfl) hpos,
        TokenList.next_of_cons ht]
      have hbelow : Performs ts q₁ (call (Method.operandsBelow level))
          (Goal.run [Goal.operandsBelow level] (ts.drop q₁.position)) := by
        rw [← Method.run_operandsBelow]
        exact h.later hq₁ (by omega)
      refine .then hbelow fun q₂ hq₂ _ _ => ?_
      exact .then (performs_emit hq₂ ..) fun q₃ hq₃ _ _ => h.later hq₃ (by omega)
    · rw [Option.filter_some_neg (by simpa using hl),
        Goal.run_replace_nil (by simp only [Goal.action, ht, hop, if_neg hl])]
      exact performs_pure hp
  · have ha : (Goal.moreOperands level).action (ts.drop p.position) = .replace [] := by
      rw [Goal.action]
      split
      · rw [hno _ _ _ ‹_›]
      · rfl
    rw [heq, Goal.run_replace_nil ha]
    exact performs_pure hp

theorem performs_unary (h : CallsPerform ts call p.position .unary) (hp : InRange ts p) :
    Performs ts p (body ts call .unary) (Goal.run [.unary] (ts.drop p.position)) := by
  rw [body]
  refine .peek hp ?_
  obtain ⟨op, sign, loc, rest, ht, hop, heq⟩ | ⟨hno, heq⟩ := operator_cases Punct.unaryOp?
  · rw [heq]
    refine .advance hp ht fun q₁ hq₁ hpos => ?_
    rw [run_next ht (by simp only [Goal.action, ht, hop]; rfl) hpos, TokenList.next_of_cons ht]
    exact .then (h.later hq₁ (by omega)) fun q₂ hq₂ _ _ => performs_emit hq₂ ..
  · have ha : Goal.unary.action (ts.drop p.position) = .replace [.primary, .morePostfixed] := by
      rw [Goal.action]
      split
      · rw [hno _ _ _ ‹_›]
      · rfl
    rw [heq, run_same ha]
    exact h.here hp rfl (by decide)

theorem performs_postfixed (h : CallsPerform ts call p.position .postfixed) (hp : InRange ts p) :
    Performs ts p (body ts call .postfixed)
      (Goal.run [.primary, .morePostfixed] (ts.drop p.position)) := by
  rw [body]
  exact .then (h.here hp rfl (by decide)) fun q hq _ hlt => h.later hq (hlt rfl)

theorem performs_morePostfixed (h : CallsPerform ts call p.position .morePostfixed)
    (hp : InRange ts p) :
    Performs ts p (body ts call .morePostfixed)
      (Goal.run [.morePostfixed] (ts.drop p.position)) := by
  rw [body]
  refine .peek hp ?_
  obtain ⟨op, sign, loc, rest, ht, hop, heq⟩ | ⟨hno, heq⟩ := operator_cases Punct.postfixOp?
  · rw [heq]
    refine .advance hp ht fun q₁ hq₁ hpos => ?_
    rw [run_next ht (by simp only [Goal.action, ht, hop]; rfl) hpos, TokenList.next_of_cons ht]
    exact .then (performs_emit hq₁ ..) fun q₂ hq₂ _ _ => h.later hq₂ (by omega)
  · have ha : Goal.morePostfixed.action (ts.drop p.position) = .replace [] := by
      rw [Goal.action]
      split
      · rw [hno _ _ _ ‹_›]
      · rfl
    rw [heq, Goal.run_replace_nil ha]
    exact performs_pure hp

theorem performs_primary (h : CallsPerform ts call p.position .primary) (hp : InRange ts p) :
    Performs ts p (body ts call .primary) (Goal.run [.primary] (ts.drop p.position)) := by
  have parens (ha : (∀ loc rest, (ts.drop p.position).tokens ≠ ⟨.punct .leftParen, loc⟩ :: rest) →
      Goal.primaryAction (ts.drop p.position).tokens = .fail .expression) :
      Performs ts p
        (accept ts (.punct .leftParen) >>= fun b => if b = true then
          call .expression >>= fun _ => expectSign ts .rightParen "after expression"
        else fail ts .expression) (Goal.run [.primary] (ts.drop p.position)) := by
    refine .accept hp (fun loc rest ht q hq hpos => ?_) fun hno => performs_of_fail hp rfl (ha hno)
    rw [run_next ht (by rw [Goal.action, ht, Goal.primaryAction]) hpos]
    exact .then (h.later hq (by omega)) fun q₁ hq₁ _ _ => performs_expectSign hq₁ ..
  rw [body]
  refine .peek hp ?_
  rcases ht : (ts.drop p.position).tokens with _ | ⟨⟨kind, loc⟩, rest⟩
  · rw [TokenList.next, ht]
    exact parens fun _ => by simp [ht, Goal.primaryAction]
  rw [TokenList.next_of_cons ht]
  cases kind with
  | literal | name =>
    refine .advance hp ht fun q hq hpos => ?_
    rw [run_next ht (by rw [Goal.action, ht, Goal.primaryAction]) hpos]
    exact performs_emit hq ..
  | type | keyword => exact parens fun _ => by simp [ht, Goal.primaryAction]
  | punct sign =>
    refine parens fun hno => ?_
    rw [ht]
    cases sign <;> first | rfl | exact absurd ht (hno _ _)

end Descent

end MiniC
