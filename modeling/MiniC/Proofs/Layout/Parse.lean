import MiniC.Proofs.Run

/-!
# Parsing is blind to places

Everything that a parse goes through can be put at the first place of a text : a token, an event, an
error, and a goal that keeps a place for a later event. Parsing and forgetting the places in this
way can be done in either order (`Goal.run_atStart`, `TokenList.parse_atStart`), since no goal looks
at the place of a token but to hand it on (`Goal.action_atStart`).
-/

namespace MiniC

/-- The token at the first place of a text. -/
def Token.atStart (t : Token) : Token := { t with location := .start }

/-- The tokens, all at the first place of a text. -/
def TokenList.atStart (ts : TokenList) : TokenList := ⟨ts.tokens.map Token.atStart, .start⟩

/-- The event at the first place of a text. -/
def Event.atStart (e : Event) : Event := { e with location := .start }

/-- The error at the first place of a text. -/
def SyntaxError.atStart (e : SyntaxError) : SyntaxError := { e with location := .start }

/-- The events and the error, all at the first place of a text. -/
def EventStream.atStart (s : EventStream) : EventStream :=
  ⟨s.events.map Event.atStart, s.failure.map SyntaxError.atStart⟩

/-- The goal with the first place of a text in the place of the one it keeps. -/
def Goal.atStart : Goal → Goal
  | initializer name _ => initializer name .start
  | returnValue _ => returnValue .start
  | elseBranch _ => elseBranch .start
  | emit rule _ => emit rule .start
  | goal => goal

/-- The action with all places forgotten. -/
def Action.atStart : Action → Action
  | emit event => emit event.atStart
  | replace goals => replace (goals.map Goal.atStart)
  | read goals rest => read (goals.map Goal.atStart) (rest.map Token.atStart)
  | fail what => fail what

/-- The run with all places forgotten. -/
def Run.atStart (r : Run) : Run :=
  ⟨r.events.map Event.atStart, match r.result with
    | .ok ts => .ok ts.atStart
    | .error e => .error e.atStart⟩

/-- Token lists with the same kinds of tokens differ in their places alone. -/
theorem TokenList.atStart_eq {ts us : TokenList}
    (h : ts.tokens.map Token.kind = us.tokens.map Token.kind) : ts.atStart = us.atStart := by
  have hmap (ts : TokenList) :
      ts.atStart = ⟨(ts.tokens.map Token.kind).map (⟨·, .start⟩), .start⟩ := by
    rw [atStart, List.map_map]
    rfl
  rw [hmap, hmap, h]

namespace Goal

/-- Which declaration starts is told by the kinds of the tokens. -/
theorem startsFunction_atStart (tokens : List Token) :
    startsFunction (tokens.map Token.atStart) = startsFunction tokens := by
  match tokens with
  | [] => rfl
  | [⟨kind, loc⟩] => cases kind <;> rfl
  | ⟨kind, loc⟩ :: ⟨next, loc'⟩ :: rest =>
    cases kind with
    | name =>
      cases next with
      | punct p => cases p <;> rfl
      | _ => rfl
    | type =>
      cases next with
      | name =>
        match rest with
        | [] => rfl
        | ⟨third, loc''⟩ :: rest =>
          cases third with
          | punct p => cases p <;> rfl
          | _ => rfl
      | _ => rfl
    | _ => rfl

theorem externalAction_atStart (tokens : List Token) :
    externalAction (tokens.map Token.atStart) = (externalAction tokens).atStart := by
  match tokens with
  | [] => rfl
  | ⟨kind, loc⟩ :: rest =>
    have hs := startsFunction_atStart (⟨kind, loc⟩ :: rest)
    cases kind with
    | type type | name name =>
      simp only [externalAction, List.map_cons, Token.atStart] at hs ⊢
      rw [hs]
      split <;> rfl
    | literal | keyword | punct => rfl

theorem sign_atStart (p : Punct) (context : String) (rule : Option Rule) (kind : Token.Kind)
    (loc : Location) (rest : List Token) (stop : Location) :
    (sign p context rule).action ⟨⟨kind, .start⟩ :: rest.map Token.atStart, .start⟩ =
      ((sign p context rule).action ⟨⟨kind, loc⟩ :: rest, stop⟩).atStart := by
  cases kind with
  | punct q =>
    simp only [action]
    split
    · cases rule <;> rfl
    · rfl
  | literal | name | type | keyword => rfl

/-- A goal does the same in front of the same kinds of tokens, whatever their places. -/
theorem action_atStart (goal : Goal) (ts : TokenList) :
    goal.atStart.action ts.atStart = (goal.action ts).atStart := by
  obtain ⟨tokens, stop⟩ := ts
  match tokens with
  | [] =>
    cases goal with
    | externals joined | items joined => cases joined <;> rfl
    | operands level => cases level <;> rfl
    | _ => rfl
  | ⟨kind, loc⟩ :: rest =>
    cases goal with
    | external => exact externalAction_atStart (⟨kind, loc⟩ :: rest)
    | sign p context rule => exact sign_atStart p context rule kind loc rest stop
    | emit | expression | conditional | assignment => rfl
    | operands level => cases level <;> rfl
    | externals joined => cases joined <;> rfl
    | items joined =>
      cases joined <;> cases kind <;> first | rfl | (rename_i p; cases p <;> rfl)
    | moreOperands level =>
      cases kind with
      | punct p => cases level <;> cases p <;> rfl
      | _ => rfl
    | _ => cases kind <;> first | rfl | (rename_i p; cases p <;> rfl)

/-- The events of a run, and how it ends, are the same in front of the same kinds of tokens. -/
theorem run_atStart (goals : List Goal) (ts : TokenList) :
    run (goals.map atStart) ts.atStart = (run goals ts).atStart := by
  fun_induction run goals ts with
  | case1 ts => exact run_nil ts.atStart
  | case2 ts goal goals event h r ih =>
    obtain rfl := eq_emit h
    rw [List.map_cons, atStart, run_emit, ih]
    rfl
  | case3 ts goal goals new h ih =>
    have ha : goal.atStart.action ts.atStart = .replace (new.map atStart) := by
      rw [action_atStart, h]
      rfl
    rw [List.map_cons, run_replace ha, ← List.map_append, ih]
  | case4 ts goal goals new rest h ih =>
    have ha : goal.atStart.action ts.atStart =
        .read (new.map atStart) (rest.map Token.atStart) := by
      rw [action_atStart, h]
      rfl
    rw [List.map_cons, run_read ha, ← List.map_append]
    exact ih
  | case5 ts goal goals what h =>
    have ha : goal.atStart.action ts.atStart = .fail what := by
      rw [action_atStart, h]
      rfl
    rw [List.map_cons, run_fail ha]
    obtain ⟨_ | ⟨t, rest⟩, stop⟩ := ts <;> rfl

end Goal

/-- Parsing and forgetting the places can be done in either order. -/
theorem TokenList.parse_atStart (ts : TokenList) : ts.atStart.parse = ts.parse.atStart := by
  have hr := Goal.run_atStart [.externals false] ts
  have hg : [Goal.externals false].map Goal.atStart = [.externals false] := rfl
  rw [hg] at hr
  rw [parse, parse, hr]
  cases h : (Goal.run [.externals false] ts).result <;>
    simp only [Run.atStart, h, EventStream.atStart] <;> rfl

end MiniC
