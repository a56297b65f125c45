import MiniC.Proofs.Grammar.ViablePrefix

/-!
# What an event tells stands in the text

Whatever becomes of a parse, the names and constants of its events are those of tokens, and the
events are at the places of tokens (`Event.exists_standsIn`). One event can be at the end
of the text : that nothing stands in a block whose closing brace is missing.

A goal that keeps a name or a place for a later event has it from a token that was read, so it
`StandsIn` the text as the event will.
-/

namespace MiniC

/-- A token of this kind is in the list. -/
def TokenList.Has (ts : TokenList) (kind : Token.Kind) : Prop := ∃ t ∈ ts.tokens, t.kind = kind

/-- A token of the list is at this place. -/
def TokenList.HasAt (ts : TokenList) (loc : Location) : Prop := ∃ t ∈ ts.tokens, t.location = loc

/-- The name or the constant that the rule tells is one of the tokens, if it tells any. -/
def Rule.StandsIn (ts : TokenList) : Rule → Prop
  | functionDeclarator name _ | parameter name _ | functionDefinition name _ | declTarget name
  | initDeclarator name | declarator name | identifier name => ts.Has (.name name)
  | literal value => ts.Has (.literal value)
  | openScope | closeScope | typeSpecifier _ | declaration | unary _ | postfixed _ | binary _
  | assign _ | ternary | comma | emptyStatement | emptyBlock | sequence | ifThen | ifElse
  | whileLoop | forLoop | returned _ => True

/-- What the event tells is one of the tokens, and so is its place, unless it is an empty block at
the end of the text. -/
def Event.StandsIn (ts : TokenList) (e : Event) : Prop :=
  e.rule.StandsIn ts ∧ (ts.HasAt e.location ∨ e.rule = .emptyBlock ∧ e.location = ts.stop)

namespace Goal

/-- What the goal keeps for its events is from the tokens. -/
def StandsIn (ts : TokenList) : Goal → Prop
  | emit rule loc => Event.StandsIn ts ⟨rule, loc⟩
  | sign _ _ rule => ∀ r ∈ rule, r.StandsIn ts
  | initializer name loc => ts.Has (.name name) ∧ ts.HasAt loc
  | returnValue loc | elseBranch loc => ts.HasAt loc
  | externals _ | external | function _ | parameters | parameter | parameterName _
  | moreParameters | declaration | declarator | moreDeclarators | items _ | item | statement
  | simple | increment | expression | moreExpressions | assignment | moreAssignment | conditional
  | moreConditional | operands _ | moreOperands _ | unary | primary | morePostfixed => True

end Goal

/-- What the event or the goals of an action tell or keep is from the tokens. -/
def Action.StandsIn (ts : TokenList) : Action → Prop
  | emit event => event.StandsIn ts
  | replace goals | read goals _ => ∀ goal ∈ goals, goal.StandsIn ts
  | fail _ => True

namespace Goal

variable {goal : Goal} {goals : List Goal} {ts us : TokenList}

theorem standsIn_operandsBelow (level : Precedence) : (operandsBelow level).StandsIn us := by
  cases level <;> exact trivial

theorem standsIn_joined {first next : Goal} {loc : Location} (hf : first.StandsIn us)
    (hn : next.StandsIn us) (joined : Bool) (h : us.HasAt loc) :
    ∀ goal ∈ first :: joinedBy joined loc ++ [next], goal.StandsIn us := by
  cases joined with
  | false => simpa [joinedBy] using ⟨hf, hn⟩
  | true => simpa [joinedBy] using ⟨hf, ⟨trivial, .inl h⟩, hn⟩

theorem has_of_eq_cons {kind : Token.Kind} {loc : Location} {rest : List Token}
    (ht : ∀ t ∈ ts.tokens, t ∈ us.tokens) (h : ts.tokens = ⟨kind, loc⟩ :: rest) :
    us.Has kind ∧ us.HasAt loc := by
  have hm := ht ⟨kind, loc⟩ (h ▸ List.mem_cons_self)
  exact ⟨⟨_, hm, rfl⟩, ⟨_, hm, rfl⟩⟩

/-- The rest of a text starts at a token, or where the text ends. -/
theorem place_standsIn (ht : ∀ t ∈ ts.tokens, t ∈ us.tokens) (hs : ts.stop = us.stop) :
    (∃ t rest, ts.tokens = t :: rest ∧ us.HasAt ts.place) ∨
      ts.tokens = [] ∧ ts.place = us.stop := by
  obtain ⟨_ | ⟨t, rest⟩, stop⟩ := ts
  · exact .inr ⟨rfl, hs⟩
  · exact .inl ⟨t, rest, rfl, t, ht t List.mem_cons_self, rfl⟩

/-- In front of the rest of a text, a goal hands on what stands in the text. -/
theorem standsIn_action (hg : goal.StandsIn us) (ht : ∀ t ∈ ts.tokens, t ∈ us.tokens)
    (hs : ts.stop = us.stop) : (goal.action ts).StandsIn us := by
  cases goal
  case emit rule loc => exact hg
  case sign p context rule =>
    simp only [action]
    repeat' split
    · next heq _ =>
      obtain ⟨-, hl⟩ := has_of_eq_cons ht heq
      cases rule with
      | none => simp [Action.StandsIn]
      | some r => simpa [Action.StandsIn, StandsIn] using ⟨hg r rfl, .inl hl⟩
    · trivial
    · trivial
  case operands level =>
    simpa [action, Action.StandsIn] using ⟨standsIn_operandsBelow level, trivial⟩
  case moreOperands level =>
    simp only [action]
    repeat' split
    · next heq _ _ _ _ =>
      obtain ⟨-, hl⟩ := has_of_eq_cons ht heq
      simpa [Action.StandsIn] using ⟨standsIn_operandsBelow level, ⟨trivial, .inl hl⟩, trivial⟩
    all_goals simp [Action.StandsIn]
  case externals joined =>
    obtain ⟨t, rest, htokens, hl⟩ | ⟨htokens, -⟩ := place_standsIn ht hs
    · simp only [action, htokens, Action.StandsIn]
      refine standsIn_joined ?_ ?_ joined hl <;> trivial
    · simp [action, htokens, Action.StandsIn]
  case items joined =>
    obtain ⟨t, rest, htokens, hl⟩ | ⟨htokens, hstop⟩ := place_standsIn ht hs
    · simp only [action, htokens]
      split
      · contradiction
      · cases joined with
        | false => simpa [Action.StandsIn, StandsIn] using ⟨trivial, .inl hl⟩
        | true => simp [Action.StandsIn]
      · refine standsIn_joined ?_ ?_ joined hl <;> trivial
    · simp only [action, htokens]
      cases joined with
      | false => simpa [Action.StandsIn, StandsIn] using ⟨trivial, .inr ⟨rfl, hstop⟩⟩
      | true => simp [Action.StandsIn]
  -- the others tell what they kept, or the token that they read
  all_goals
    simp only [StandsIn] at hg
    simp only [action, externalAction, statementAction, primaryAction]
    repeat' split
  all_goals try (rename _ = _ :: _ => heq; obtain ⟨hk, hl⟩ := has_of_eq_cons ht heq)
  all_goals simp [Action.StandsIn, StandsIn, Event.StandsIn, Rule.StandsIn, *]

/-- The events of a run over a part of a text tell what stands in the text, as the goals do. -/
theorem standsIn_run (hg : ∀ goal ∈ goals, goal.StandsIn us)
    (ht : ∀ t ∈ ts.tokens, t ∈ us.tokens) (hs : ts.stop = us.stop) :
    ∀ e ∈ (run goals ts).events, e.StandsIn us := by
  fun_induction run goals ts with
  | case1 ts => simp
  | case2 ts goal goals event h r =>
    rename_i ih
    obtain rfl := eq_emit h
    rw [List.forall_mem_cons] at hg
    exact List.forall_mem_cons.2 ⟨hg.1, ih hg.2 ht hs⟩
  | case3 ts goal goals new h ih =>
    rw [List.forall_mem_cons] at hg
    have hnew := standsIn_action hg.1 ht hs
    rw [h] at hnew
    exact ih (List.forall_mem_append.2 ⟨hnew, hg.2⟩) ht hs
  | case4 ts goal goals new rest h ih =>
    rw [List.forall_mem_cons] at hg
    have hnew := standsIn_action hg.1 ht hs
    rw [h] at hnew
    obtain ⟨t, htokens⟩ := eq_cons_of_read h
    rw [htokens] at ht
    exact ih (List.forall_mem_append.2 ⟨hnew, hg.2⟩) (List.forall_mem_cons.1 ht).2 hs
  | case5 ts goal goals what h => simp

end Goal

/-- What the events of a parse tell stands in the text. -/
theorem TokenList.standsIn_of_mem_parse {ts : TokenList} {e : Event} (he : e ∈ ts.parse.events) :
    e.StandsIn ts :=
  Goal.standsIn_run (by simp [Goal.StandsIn]) (fun _ h => h) rfl e he

/-- A text with an event is cut into tokens, and what the event tells stands in them. -/
theorem Event.exists_standsIn {source : String} {e : Event} (he : e ∈ (parse source).events) :
    ∃ ts, tokenize source = .ok ts ∧ e.StandsIn ts := by
  unfold parse at he
  split at he
  · next ts ht => exact ⟨ts, ht, TokenList.standsIn_of_mem_parse he⟩
  · cases he

/-- The syntax error of a parse is at the place of a token or at the end of the text. -/
theorem TokenList.error_place {ts : TokenList} {e : SyntaxError} (he : ts.parse.failure = some e) :
    ts.HasAt e.location ∨ e.location = ts.stop := by
  obtain ⟨what, rfl⟩ := Goal.error_of_run (result_of_failure he)
  have hsub : ∀ t ∈ (Goal.leftOver [.externals false] ts).tokens, t ∈ ts.tokens :=
    fun t ht => List.mem_of_mem_drop ht
  obtain ⟨t, rest, -, hl⟩ | ⟨-, hl⟩ := Goal.place_standsIn hsub rfl
  · exact .inl hl
  · exact .inr hl

end MiniC
