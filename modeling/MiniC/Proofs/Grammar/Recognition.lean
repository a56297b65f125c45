import MiniC.Proofs.Grammar.Accepts

/-!
# What is parsed is in the grammar

The goals of declarations, statements and whole programs take only what they accept, as those of
expressions do (`Goal.sound`). A run that succeeds has therefore read a text that its goals accept
(`Goal.acceptsAll_of_run`), and the text of a parse without an error is that of a derivation
(`TokenList.exists_program`).
-/

namespace MiniC

namespace Goal

variable (ts : TokenList)

theorem sound_sign (p : Punct) (context : String) (rule : Option Rule) :
    (sign p context rule).Sound ts := by
  simp only [Sound, action]
  split
  · next q loc rest hts =>
    split
    · next hq =>
      refine ⟨_, hts, ?_⟩
      subst hq
      cases rule with
      | none =>
        rintro w rfl
        exact ⟨loc, rfl⟩
      | some rule =>
        rintro w ⟨_, _, rfl, rfl, rfl⟩
        exact ⟨loc, rfl⟩
    · trivial
  · trivial

/-! ## Declarations and parameters -/

theorem sound_declaration : declaration.Sound ts := by
  simp only [Sound, action]
  split
  · next type loc rest hts =>
    refine ⟨_, hts, ?_⟩
    rintro w ⟨_, _, rfl, rfl, _, _, rfl, ⟨d, rfl⟩, _, _, rfl, hmore, _, _, rfl, ⟨semicolon, rfl⟩,
      rfl⟩
    obtain ⟨ds, hds⟩ := hmore (.one d)
    exact ⟨⟨type, loc, ds, semicolon⟩, by simp [hds, Declaration.tokens, Declarators.tokens]⟩
  · trivial

theorem sound_declarator : declarator.Sound ts := by
  simp only [Sound, action]
  split
  · next name loc rest hts =>
    refine ⟨_, hts, ?_⟩
    rintro w ⟨_, _, rfl, hd, rfl⟩
    rw [List.append_nil]
    exact hd
  · trivial

theorem sound_initializer (name : String) (loc : Location) : (initializer name loc).Sound ts := by
  simp only [Sound, action]
  split
  · next equal rest hts =>
    refine ⟨_, hts, ?_⟩
    rintro w ⟨_, _, rfl, rfl, _, _, rfl, ⟨value, rfl⟩, _, _, rfl, rfl, rfl⟩
    exact ⟨.initialized name loc equal value, by simp [Declarator.tokens]⟩
  · rintro w ⟨_, _, rfl, rfl, rfl⟩
    exact ⟨.plain name loc, rfl⟩

theorem sound_moreDeclarators : moreDeclarators.Sound ts := by
  simp only [Sound, action]
  split
  · next comma rest hts =>
    refine ⟨_, hts, ?_⟩
    rintro w ⟨_, _, rfl, ⟨d, rfl⟩, _, _, rfl, rfl, _, _, rfl, hmore, rfl⟩ ds
    obtain ⟨ds', hds⟩ := hmore (.more ds comma d)
    exact ⟨ds', by simp [hds, Declarators.tokens]⟩
  · rintro w rfl
    exact extending_nil _

theorem sound_parameters : parameters.Sound ts := by
  simp only [Sound, action]
  split
  · rintro w rfl
    exact ⟨.empty, rfl⟩
  · rintro w ⟨_, _, rfl, ⟨ps, rfl⟩, rfl⟩
    exact ⟨.list ps, by simp [Parameters.tokens]⟩

theorem sound_parameter : parameter.Sound ts := by
  simp only [Sound, action]
  split
  · next type loc rest hts =>
    refine ⟨_, hts, ?_⟩
    rintro w ⟨_, _, rfl, hps, rfl⟩
    rw [List.append_nil]
    exact hps loc
  · trivial

theorem sound_parameterName (type : DataType) : (parameterName type).Sound ts := by
  simp only [Sound, action]
  split
  · next name nameLoc rest hts =>
    refine ⟨_, hts, ?_⟩
    rintro w ⟨_, _, rfl, rfl, _, _, rfl, hmore, rfl⟩ loc
    obtain ⟨ps, hps⟩ := hmore ⟨type, loc, some (name, nameLoc)⟩
    exact ⟨ps, by simp [hps, Parameter.tokens]⟩
  · rintro w ⟨_, _, rfl, hmore, rfl⟩ loc
    obtain ⟨ps, hps⟩ := hmore ⟨type, loc, none⟩
    exact ⟨ps, by simp [hps, Parameter.tokens]⟩

theorem sound_moreParameters : moreParameters.Sound ts := by
  simp only [Sound, action]
  split
  · next comma rest hts =>
    refine ⟨_, hts, ?_⟩
    rintro w ⟨_, _, rfl, ⟨ps, rfl⟩, rfl⟩ p
    exact ⟨.more p comma ps, by simp [ParameterList.tokens]⟩
  · rintro w rfl p
    exact ⟨.one p, by simp [ParameterList.tokens]⟩

/-! ## Statements -/

theorem sound_simple : simple.Sound ts := by
  simp only [Sound, action]
  split
  · next semicolon rest hts =>
    refine ⟨_, hts, ?_⟩
    rintro w ⟨_, _, rfl, rfl, rfl⟩
    exact ⟨.empty semicolon, rfl⟩
  · rintro w ⟨_, _, rfl, ⟨e, rfl⟩, _, _, rfl, ⟨semicolon, rfl⟩, rfl⟩
    exact ⟨.expression e semicolon, rfl⟩

theorem sound_increment : increment.Sound ts := by
  simp only [Sound, action]
  split
  · rintro w ⟨_, _, rfl, rfl, rfl⟩
    exact ⟨none, rfl⟩
  · rintro w ⟨_, _, rfl, ⟨e, rfl⟩, rfl⟩
    exact ⟨some e, by simp [tokensOf?]⟩

theorem sound_returnValue (loc : Location) : (returnValue loc).Sound ts := by
  simp only [Sound, action]
  split
  · rintro w ⟨_, _, rfl, ⟨semicolon, rfl⟩, _, _, rfl, rfl, rfl⟩
    exact ⟨.returned loc none semicolon, rfl⟩
  · rintro w ⟨_, _, rfl, ⟨e, rfl⟩, _, _, rfl, ⟨semicolon, rfl⟩, _, _, rfl, rfl, rfl⟩
    exact ⟨.returned loc (some e) semicolon, rfl⟩

theorem sound_elseBranch (loc : Location) : (elseBranch loc).Sound ts := by
  simp only [Sound, action]
  split
  · next elseLoc rest hts =>
    refine ⟨_, hts, ?_⟩
    rintro w ⟨_, _, rfl, ⟨no, rfl⟩, _, _, rfl, rfl, rfl⟩ left condition right yes
    exact ⟨.ifElse loc left condition right yes elseLoc no, by simp [Code.tokens]⟩
  · rintro w ⟨_, _, rfl, rfl, rfl⟩ left condition right yes
    exact ⟨.ifThen loc left condition right yes, by simp⟩

theorem sound_items (joined : Bool) : (items joined).Sound ts := by
  have hnil : ∀ loc w, AcceptsAll (if joined then [] else [emit .emptyBlock loc]) w →
      (items joined).Accepts w := by
    intro loc w h
    cases joined with
    | true =>
      obtain rfl := h
      exact extending_nil _
    | false =>
      obtain ⟨_, _, rfl, rfl, rfl⟩ := h
      exact ⟨none, rfl⟩
  simp only [Sound, action]
  split
  · exact hnil _
  · exact hnil _
  · intro w h
    cases joined with
    | true =>
      obtain ⟨_, _, rfl, ⟨item, rfl⟩, _, _, rfl, rfl, _, _, rfl, hmore, rfl⟩ := h
      intro items
      obtain ⟨items', hi⟩ := hmore (.more items item)
      exact ⟨items', by simp [hi, Code.tokens]⟩
    | false =>
      obtain ⟨_, _, rfl, ⟨item, rfl⟩, _, _, rfl, hmore, rfl⟩ := h
      obtain ⟨items, hi⟩ := hmore (.one item)
      exact ⟨some items, by simp [hi, Items.tokens, Code.tokens]⟩

theorem sound_item : item.Sound ts := by
  simp only [Sound, action]
  split
  · rintro w ⟨_, _, rfl, ⟨d, rfl⟩, rfl⟩
    exact ⟨.declaration d, by simp [Code.tokens]⟩
  · rintro w ⟨_, _, rfl, ⟨s, rfl⟩, rfl⟩
    exact ⟨.statement s, by simp [Code.tokens]⟩

theorem sound_statement : statement.Sound ts := by
  simp only [Sound, action, statementAction]
  split
  · next loc rest hts =>
    refine ⟨_, hts, ?_⟩
    rintro w ⟨_, _, rfl, hs, rfl⟩
    rw [List.append_nil]
    exact hs
  · next loc rest hts =>
    refine ⟨_, hts, ?_⟩
    rintro w ⟨_, _, rfl, ⟨left, rfl⟩, _, _, rfl, ⟨condition, rfl⟩, _, _, rfl, ⟨right, rfl⟩, _, _,
      rfl, ⟨yes, rfl⟩, _, _, rfl, hs, rfl⟩
    obtain ⟨s, hs⟩ := hs left condition right yes
    exact ⟨s, by simp [hs, Code.tokens]⟩
  · next loc rest hts =>
    refine ⟨_, hts, ?_⟩
    rintro w ⟨_, _, rfl, ⟨left, rfl⟩, _, _, rfl, ⟨condition, rfl⟩, _, _, rfl, ⟨right, rfl⟩, _, _,
      rfl, ⟨body, rfl⟩, _, _, rfl, rfl, rfl⟩
    exact ⟨.whileLoop loc left condition right body, by simp [Code.tokens]⟩
  · next loc rest hts =>
    refine ⟨_, hts, ?_⟩
    rintro w ⟨_, _, rfl, ⟨left, rfl⟩, _, _, rfl, ⟨init, rfl⟩, _, _, rfl, ⟨condition, rfl⟩, _, _,
      rfl, ⟨step, rfl⟩, _, _, rfl, ⟨right, rfl⟩, _, _, rfl, ⟨body, rfl⟩, _, _, rfl, rfl, rfl⟩
    exact ⟨.forLoop loc left ⟨init, condition, step⟩ right body,
      by simp [Code.tokens, Clauses.tokens]⟩
  · next opening rest hts =>
    refine ⟨_, hts, ?_⟩
    rintro w ⟨_, _, rfl, rfl, _, _, rfl, ⟨items, rfl⟩, _, _, rfl, ⟨closing, rfl⟩, rfl⟩
    cases items with
    | none => exact ⟨.emptyBlock opening closing, rfl⟩
    | some items => exact ⟨.block opening items closing, by simp [Code.tokens, Items.tokens]⟩
  · rintro w ⟨_, _, rfl, ⟨s, rfl⟩, rfl⟩
    exact ⟨.simple s, by simp [Code.tokens]⟩

/-! ## Programs -/

theorem sound_function (typed : Bool) : (function typed).Sound ts := by
  simp only [Sound, action]
  split
  · next name loc rest hts =>
    refine ⟨_, hts, ?_⟩
    rintro w ⟨_, _, rfl, rfl, _, _, rfl, ⟨left, rfl⟩, _, _, rfl, ⟨ps, rfl⟩, _, _, rfl, ⟨right, rfl⟩,
      _, _, rfl, ⟨opening, rfl⟩, _, _, rfl, ⟨body, rfl⟩, _, _, rfl, ⟨closing, rfl⟩, _, _, rfl, rfl,
      rfl⟩
    exact ⟨⟨name, loc, left, ps, right, opening, body, closing⟩, by simp [Definition.tokens]⟩
  · trivial

theorem sound_external : external.Sound ts := by
  simp only [Sound, action, externalAction]
  split
  · next type loc rest hts =>
    split
    · refine ⟨_, hts, ?_⟩
      rintro w ⟨_, _, rfl, rfl, _, _, rfl, ⟨f, rfl⟩, rfl⟩
      exact ⟨.typedFunction type loc f, by simp [External.tokens]⟩
    · rintro w ⟨_, _, rfl, ⟨d, rfl⟩, rfl⟩
      exact ⟨.declaration d, by simp [External.tokens]⟩
  · split
    · rintro w ⟨_, _, rfl, ⟨f, rfl⟩, rfl⟩
      exact ⟨.function f, by simp [External.tokens]⟩
    · trivial
  · trivial

theorem sound_externals (joined : Bool) : (externals joined).Sound ts := by
  simp only [Sound, action]
  split
  · rintro w rfl
    cases joined with
    | true => exact extending_nil _
    | false => exact ⟨none, rfl⟩
  · intro w h
    cases joined with
    | true =>
      obtain ⟨_, _, rfl, ⟨x, rfl⟩, _, _, rfl, rfl, _, _, rfl, hmore, rfl⟩ := h
      intro xs
      obtain ⟨xs', hx⟩ := hmore (.more xs x)
      exact ⟨xs', by simp [hx, Externals.tokens]⟩
    | false =>
      obtain ⟨_, _, rfl, ⟨x, rfl⟩, _, _, rfl, hmore, rfl⟩ := h
      obtain ⟨xs, hx⟩ := hmore (.one x)
      exact ⟨some xs, by simp [hx, Program.tokens, Externals.tokens]⟩

/-- Every goal takes what it accepts. -/
theorem sound (goal : Goal) : goal.Sound ts := by
  cases goal with
  | externals joined => exact sound_externals ts joined
  | external => exact sound_external ts
  | function typed => exact sound_function ts typed
  | parameters => exact sound_parameters ts
  | parameter => exact sound_parameter ts
  | parameterName type => exact sound_parameterName ts type
  | moreParameters => exact sound_moreParameters ts
  | declaration => exact sound_declaration ts
  | declarator => exact sound_declarator ts
  | initializer name loc => exact sound_initializer ts name loc
  | moreDeclarators => exact sound_moreDeclarators ts
  | items joined => exact sound_items ts joined
  | item => exact sound_item ts
  | statement => exact sound_statement ts
  | returnValue loc => exact sound_returnValue ts loc
  | elseBranch loc => exact sound_elseBranch ts loc
  | simple => exact sound_simple ts
  | increment => exact sound_increment ts
  | expression => exact sound_expression ts
  | moreExpressions => exact sound_moreExpressions ts
  | assignment => exact sound_assignment ts
  | moreAssignment => exact sound_moreAssignment ts
  | conditional => exact sound_conditional ts
  | moreConditional => exact sound_moreConditional ts
  | operands level => exact sound_operands ts level
  | moreOperands level => exact sound_moreOperands ts level
  | unary => exact sound_unary ts
  | primary => exact sound_primary ts
  | morePostfixed => exact sound_morePostfixed ts
  | sign p context rule => exact sound_sign ts p context rule
  | emit rule loc => rfl

/-! ## Runs -/

/-- A run that succeeds has read a text that its goals accept. -/
theorem acceptsAll_of_run {goals : List Goal} {ts rest : TokenList}
    (h : (run goals ts).result = .ok rest) :
    ∃ w, ts.tokens = w ++ rest.tokens ∧ AcceptsAll goals w := by
  fun_induction run goals ts with
  | case1 ts =>
    obtain rfl := Except.ok.inj h
    exact ⟨[], rfl, rfl⟩
  | case2 ts goal goals event ha r =>
    rename_i ih
    obtain ⟨w, hw, hall⟩ := ih h
    have hs := sound ts goal
    rw [Sound, ha] at hs
    exact ⟨w, hw, [], w, rfl, hs, hall⟩
  | case3 ts goal goals new ha ih =>
    obtain ⟨w, hw, hall⟩ := ih h
    obtain ⟨u, v, rfl, hu, hv⟩ := acceptsAll_append hall
    have hs := sound ts goal
    rw [Sound, ha] at hs
    exact ⟨u ++ v, hw, u, v, rfl, hs u hu, hv⟩
  | case4 ts goal goals new more ha ih =>
    obtain ⟨w, hw, hall⟩ := ih h
    obtain ⟨u, v, rfl, hu, hv⟩ := acceptsAll_append hall
    have hs := sound ts goal
    rw [Sound, ha] at hs
    obtain ⟨t, ht, hs⟩ := hs
    have hw : more = u ++ v ++ rest.tokens := hw
    exact ⟨t :: (u ++ v), by rw [ht, hw]; rfl, t :: u, v, rfl, hs u hu, hv⟩
  | case5 ts goal goals what ha => cases h

/-- The goals end with those of a whole program, or are met and nothing is left to read. -/
def EndsProgram (goals : List Goal) (ts : TokenList) : Prop :=
  (∃ front joined, goals = front ++ [externals joined]) ∨ goals = [] ∧ ts.tokens = []

/-- The last goal is the one that acts, or stays the last. -/
theorem EndsProgram.cases {goal : Goal} {goals : List Goal} {ts : TokenList}
    (h : EndsProgram (goal :: goals) ts) :
    (∃ joined, goal = externals joined ∧ goals = []) ∨
      ∀ new ts', EndsProgram (new ++ goals) ts' := by
  obtain ⟨front, joined, hf⟩ | ⟨hf, -⟩ := h
  · cases front with
    | nil =>
      obtain ⟨rfl, rfl⟩ := List.cons.inj hf
      exact .inl ⟨joined, rfl, rfl⟩
    | cons g front =>
      obtain ⟨-, rfl⟩ := List.cons.inj hf
      exact .inr fun new ts' => .inl ⟨new ++ front, joined, (List.append_assoc ..).symm⟩
  · cases hf

/-- A run of the goals of a whole program reads everything. -/
theorem tokens_eq_nil_of_run {goals : List Goal} {ts rest : TokenList}
    (hg : EndsProgram goals ts) (h : (run goals ts).result = .ok rest) : rest.tokens = [] := by
  fun_induction run goals ts with
  | case1 ts =>
    obtain rfl := Except.ok.inj h
    obtain ⟨front, joined, hf⟩ | ⟨-, ht⟩ := hg
    · simp at hf
    · exact ht
  | case2 ts goal goals event ha r =>
    rename_i ih
    obtain ⟨joined, rfl, rfl⟩ | hgoals := hg.cases
    · cases (eq_emit ha)
    · exact ih (hgoals [] ts) h
  | case3 ts goal goals new ha ih =>
    refine ih ?_ h
    obtain ⟨joined, rfl, rfl⟩ | hgoals := hg.cases
    · by_cases ht : ts.tokens = []
      · simp only [action, ht] at ha
        obtain rfl := Action.replace.inj ha
        exact .inr ⟨rfl, ht⟩
      · rw [action_externals ht] at ha
        obtain rfl := Action.replace.inj ha
        exact .inl ⟨external :: joinedBy joined ts.place, true, by rw [List.append_nil]⟩
    · exact hgoals new ts
  | case4 ts goal goals new more ha ih =>
    refine ih ?_ h
    obtain ⟨joined, rfl, rfl⟩ | hgoals := hg.cases
    · by_cases ht : ts.tokens = []
      · simp [action, ht] at ha
      · rw [action_externals ht] at ha
        cases ha
    · exact hgoals new _
  | case5 ts goal goals what ha => cases h

end Goal

/-- The text of a parse without an error is that of a derivation. -/
theorem TokenList.exists_program {ts : TokenList} (h : ts.parse.failure = none) :
    ∃ p : Program, p.tokens = ts.tokens := by
  unfold parse at h
  cases hr : (Goal.run [.externals false] ts).result with
  | error e => simp [hr] at h
  | ok rest =>
    have hrest : rest.tokens = [] := Goal.tokens_eq_nil_of_run (.inl ⟨[], false, rfl⟩) hr
    obtain ⟨w, hw, _, _, rfl, ⟨p, rfl⟩, rfl⟩ := Goal.acceptsAll_of_run hr
    exact ⟨p, by rw [hw, hrest, List.append_nil, List.append_nil]⟩

end MiniC
