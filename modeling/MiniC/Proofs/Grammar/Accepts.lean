import MiniC.Proofs.Grammar.Derivation
import MiniC.Proofs.Run

/-!
# What a goal accepts

`Goal.Accepts goal w` says what the tokens that meet a goal are in the grammar : the text of a
derivation, or, for a goal that goes on with something, a text that makes another derivation out of
each derivation it can go on with. `Goal.AcceptsAll` is the same of goals that are met one after the
other.

`Action.Sound` says that an action only takes what the goal accepts, if the goals in its place do.
Here are the goals of an expression; the others are in `MiniC.Proofs.Grammar.Recognition`.
-/

namespace MiniC

/-- The text is that of some derivation. -/
def Derived {D : Type} (tokens : D → List Token) (w : List Token) : Prop := ∃ d, tokens d = w

/-- Behind every derivation of one kind the text makes one of another. -/
def Extending {D E : Type} (tokens : D → List Token) (tokens' : E → List Token)
    (w : List Token) : Prop := ∀ d, ∃ e, tokens' e = tokens d ++ w

theorem extending_nil {D : Type} (tokens : D → List Token) : Extending tokens tokens [] :=
  fun d => ⟨d, (List.append_nil _).symm⟩

namespace Goal

/-- The tokens meet the goal. -/
def Accepts : Goal → List Token → Prop
  | emit _ _, w => w = []
  | sign p _ _, w => ∃ loc, w = [⟨.punct p, loc⟩]
  | externals false, w => Derived Program.tokens w
  | externals true, w => Extending Externals.tokens Externals.tokens w
  | external, w => Derived External.tokens w
  | function _, w => Derived Definition.tokens w
  | parameters, w => Derived Parameters.tokens w
  | parameter, w => Derived ParameterList.tokens w
  | parameterName type, w => ∀ loc, Derived ParameterList.tokens (⟨.type type, loc⟩ :: w)
  | moreParameters, w => Extending Parameter.tokens ParameterList.tokens w
  | declaration, w => Derived Declaration.tokens w
  | declarator, w => Derived Declarator.tokens w
  | initializer name loc, w => Derived Declarator.tokens (⟨.name name, loc⟩ :: w)
  | moreDeclarators, w => Extending Declarators.tokens Declarators.tokens w
  | items false, w => Derived Items.tokens w
  | items true, w => Extending (@Code.tokens .items) (@Code.tokens .items) w
  | item, w => Derived (@Code.tokens .item) w
  | statement, w => Derived (@Code.tokens .statement) w
  | returnValue loc, w => Derived (@Code.tokens .statement) (⟨.keyword .returnKw, loc⟩ :: w)
  | elseBranch loc, w => ∀ left condition right yes, Derived (@Code.tokens .statement)
      ((Code.ifThen loc left condition right yes).tokens ++ w)
  | simple, w => Derived Simple.tokens w
  | increment, w => Derived tokensOf? w
  | expression, w => Derived (@Term.tokens .expression) w
  | moreExpressions, w => Extending (@Term.tokens .expression) (@Term.tokens .expression) w
  | assignment, w => Derived (@Term.tokens .assignment) w
  | moreAssignment, w => Extending (@Term.tokens .conditional) (@Term.tokens .assignment) w
  | conditional, w => Derived (@Term.tokens .conditional) w
  | moreConditional, w =>
    Extending (@Term.tokens (.operands .equality)) (@Term.tokens .conditional) w
  | operands level, w => Derived (@Term.tokens (.operands level)) w
  | moreOperands level, w =>
    Extending (@Term.tokens (.operands level)) (@Term.tokens (.operands level)) w
  | unary, w => Derived (@Term.tokens .unary) w
  | primary, w => Derived (@Term.tokens .primary) w
  | morePostfixed, w => Extending (@Term.tokens .postfixed) (@Term.tokens .postfixed) w

/-- The tokens meet the goals, one after the other. -/
def AcceptsAll : List Goal → List Token → Prop
  | [], w => w = []
  | goal :: goals, w => ∃ u v, w = u ++ v ∧ goal.Accepts u ∧ AcceptsAll goals v

theorem acceptsAll_append {new goals : List Goal} {w : List Token}
    (h : AcceptsAll (new ++ goals) w) :
    ∃ u v, w = u ++ v ∧ AcceptsAll new u ∧ AcceptsAll goals v := by
  induction new generalizing w with
  | nil => exact ⟨[], w, rfl, rfl, h⟩
  | cons goal new ih =>
    obtain ⟨u, v, rfl, hu, hv⟩ := h
    obtain ⟨u', v', rfl, hu', hv'⟩ := ih hv
    exact ⟨u ++ u', v', by rw [List.append_assoc], ⟨u, u', rfl, hu, hu'⟩, hv'⟩

end Goal

/-- The goal accepts what its action takes. -/
def Action.Sound (goal : Goal) (ts : TokenList) : Action → Prop
  | emit _ => goal.Accepts []
  | replace new => ∀ w, Goal.AcceptsAll new w → goal.Accepts w
  | read new rest =>
    ∃ t, ts.tokens = t :: rest ∧ ∀ w, Goal.AcceptsAll new w → goal.Accepts (t :: w)
  | fail _ => True

namespace Goal

variable (ts : TokenList)

/-- A goal whose action takes what it accepts. -/
def Sound (goal : Goal) : Prop := (goal.action ts).Sound goal ts

/-! ## Expressions -/

theorem sound_primary : primary.Sound ts := by
  simp only [Sound, action, primaryAction]
  split
  · next value loc rest hts =>
    refine ⟨_, hts, ?_⟩
    rintro w ⟨_, _, rfl, rfl, rfl⟩
    exact ⟨.literal value loc, rfl⟩
  · next name loc rest hts =>
    refine ⟨_, hts, ?_⟩
    rintro w ⟨_, _, rfl, rfl, rfl⟩
    exact ⟨.identifier name loc, rfl⟩
  · next left rest hts =>
    refine ⟨_, hts, ?_⟩
    rintro w ⟨_, _, rfl, ⟨e, rfl⟩, _, _, rfl, ⟨right, rfl⟩, rfl⟩
    exact ⟨.parens left e right, rfl⟩
  · trivial

theorem sound_morePostfixed : morePostfixed.Sound ts := by
  simp only [Sound, action]
  split
  · next p loc rest hts =>
    split
    · next op hop =>
      refine ⟨_, hts, ?_⟩
      rintro w ⟨_, _, rfl, rfl, _, _, rfl, hmore, rfl⟩ e
      obtain ⟨e', he⟩ := hmore (.postfixed e hop loc)
      exact ⟨e', by simp [he, Term.tokens]⟩
    · rintro w rfl
      exact extending_nil _
  · rintro w rfl
    exact extending_nil _

theorem sound_unary : unary.Sound ts := by
  have hpostfixed : ∀ w, AcceptsAll [primary, morePostfixed] w → unary.Accepts w := by
    rintro w ⟨_, _, rfl, ⟨e, rfl⟩, _, _, rfl, hmore, rfl⟩
    obtain ⟨e', he⟩ := hmore (.ofPrimary e)
    exact ⟨.ofPostfixed e', by simp [he, Term.tokens]⟩
  simp only [Sound, action]
  split
  · next p loc rest hts =>
    split
    · next op hop =>
      refine ⟨_, hts, ?_⟩
      rintro w ⟨_, _, rfl, ⟨e, rfl⟩, _, _, rfl, rfl, rfl⟩
      exact ⟨.unary hop loc e, by simp [Term.tokens]⟩
    · exact hpostfixed
  · exact hpostfixed

/-- What the operators of a precedence stand between is a term of its tier. -/
theorem derived_of_operandsBelow {level : Precedence} {w : List Token}
    (h : (operandsBelow level).Accepts w) : Derived (@Term.tokens level.below) w := by
  cases level <;> exact h

theorem sound_operands (level : Precedence) : (operands level).Sound ts := by
  rintro w ⟨_, _, rfl, hbelow, _, _, rfl, hmore, rfl⟩
  obtain ⟨e, rfl⟩ := derived_of_operandsBelow hbelow
  obtain ⟨e', he⟩ := hmore (.ofBelow e)
  exact ⟨e', by simp [he, Term.tokens]⟩

theorem sound_moreOperands (level : Precedence) : (moreOperands level).Sound ts := by
  simp only [Sound, action]
  split
  · next p loc rest hts =>
    split
    · next op hop =>
      split
      · next hl =>
        refine ⟨_, hts, ?_⟩
        rintro w ⟨_, _, rfl, hbelow, _, _, rfl, rfl, _, _, rfl, hmore, rfl⟩ lhs
        obtain ⟨rhs, rfl⟩ := derived_of_operandsBelow hbelow
        obtain ⟨e, he⟩ := hmore (.binary lhs hop hl loc rhs)
        exact ⟨e, by simp [he, Term.tokens]⟩
      · rintro w rfl
        exact extending_nil _
    · rintro w rfl
      exact extending_nil _
  · rintro w rfl
    exact extending_nil _

theorem sound_conditional : conditional.Sound ts := by
  rintro w ⟨_, _, rfl, ⟨e, rfl⟩, _, _, rfl, hmore, rfl⟩
  obtain ⟨e', he⟩ := hmore e
  exact ⟨e', by simp [he]⟩

theorem sound_moreConditional : moreConditional.Sound ts := by
  simp only [Sound, action]
  split
  · next question rest hts =>
    refine ⟨_, hts, ?_⟩
    rintro w ⟨_, _, rfl, ⟨yes, rfl⟩, _, _, rfl, ⟨colon, rfl⟩, _, _, rfl, ⟨no, rfl⟩, _, _, rfl, rfl,
      rfl⟩ condition
    exact ⟨.ternary condition question yes colon no, by simp [Term.tokens]⟩
  · rintro w rfl e
    exact ⟨.ofOperands e, by simp [Term.tokens]⟩

theorem sound_assignment : assignment.Sound ts := by
  rintro w ⟨_, _, rfl, ⟨e, rfl⟩, _, _, rfl, hmore, rfl⟩
  obtain ⟨e', he⟩ := hmore e
  exact ⟨e', by simp [he]⟩

theorem sound_moreAssignment : moreAssignment.Sound ts := by
  have hnone : ∀ w, AcceptsAll [] w → moreAssignment.Accepts w := by
    rintro w rfl e
    exact ⟨.ofConditional e, by simp [Term.tokens]⟩
  simp only [Sound, action]
  split
  · next p loc rest hts =>
    split
    · next op hop =>
      refine ⟨_, hts, ?_⟩
      rintro w ⟨_, _, rfl, ⟨source, rfl⟩, _, _, rfl, rfl, rfl⟩ target
      exact ⟨.assign target hop loc source, by simp [Term.tokens]⟩
    · exact hnone
  · exact hnone

theorem sound_expression : expression.Sound ts := by
  rintro w ⟨_, _, rfl, ⟨e, rfl⟩, _, _, rfl, hmore, rfl⟩
  obtain ⟨e', he⟩ := hmore (.ofAssignment e)
  exact ⟨e', by simp [he, Term.tokens]⟩

theorem sound_moreExpressions : moreExpressions.Sound ts := by
  simp only [Sound, action]
  split
  · next loc rest hts =>
    refine ⟨_, hts, ?_⟩
    rintro w ⟨_, _, rfl, ⟨second, rfl⟩, _, _, rfl, rfl, _, _, rfl, hmore, rfl⟩ first
    obtain ⟨e, he⟩ := hmore (.comma first loc second)
    exact ⟨e, by simp [he, Term.tokens]⟩
  · rintro w rfl
    exact extending_nil _

end Goal

end MiniC
