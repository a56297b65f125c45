import MiniC.Grammar.Parse

/-!
# One step of a run

What `Goal.run` does with the first goal of a stack, one lemma for each `Action`. `Run.behind` puts
events in front of those of a run; `Action.goals?` are the goals an action puts in the place of the
one that acts.
-/

namespace MiniC

/-- The run whose first events are `events`. -/
def Run.behind (events : List Event) (r : Run) : Run := ⟨events ++ r.events, r.result⟩

@[simp] theorem Run.behind_behind (events more : List Event) (r : Run) :
    (r.behind more).behind events = r.behind (events ++ more) := by
  simp [Run.behind]

/-- A run behind events goes on as the run itself does. -/
theorem Run.behind_eq {r s : Run} {more : List Event} (h : r = s.behind more)
    (events : List Event) : r.behind events = s.behind (events ++ more) := by
  rw [h, behind_behind]

/-- The goals that take the place of the one that acts. -/
def Action.goals? : Action → Option (List Goal)
  | replace goals | read goals _ => some goals
  | emit _ | fail _ => none

namespace Goal

variable {goal : Goal} {goals new : List Goal} {ts : TokenList}

@[simp] theorem run_nil (ts : TokenList) : run [] ts = ⟨[], .ok ts⟩ := by
  rw [run]

@[simp] theorem run_emit (rule : Rule) (loc : Location) (goals : List Goal) (ts : TokenList) :
    run (emit rule loc :: goals) ts = (run goals ts).behind [⟨rule, loc⟩] := by
  rw [run]
  rfl

theorem run_replace (h : goal.action ts = .replace new) (goals : List Goal) :
    run (goal :: goals) ts = run (new ++ goals) ts := by
  rw [run]
  split <;> simp_all

/-- A goal that is met by nothing. -/
theorem run_replace_nil (h : goal.action ts = .replace []) (goals : List Goal) :
    run (goal :: goals) ts = run goals ts :=
  run_replace h goals

theorem run_read {rest : List Token} (h : goal.action ts = .read new rest) (goals : List Goal) :
    run (goal :: goals) ts = run (new ++ goals) ⟨rest, ts.stop⟩ := by
  rw [run]
  split <;> simp_all

/-- A goal that is met by one token. -/
theorem run_read_nil {rest : List Token} (h : goal.action ts = .read [] rest)
    (goals : List Goal) : run (goal :: goals) ts = run goals ⟨rest, ts.stop⟩ :=
  run_read h goals

/-- One token is read at a time. -/
theorem eq_cons_of_read {rest : List Token} (h : goal.action ts = .read new rest) :
    ∃ t, ts.tokens = t :: rest := by
  revert h
  cases goal <;> simp only [action, externalAction, statementAction, primaryAction]
  all_goals (repeat' split) <;> intro h <;> cases h <;> exact ⟨_, ‹_›⟩

theorem run_fail {what : Expectation} (h : goal.action ts = .fail what) (goals : List Goal) :
    run (goal :: goals) ts =
      ⟨[], .error ⟨.unexpected what (ts.tokens.head?.map Token.kind), ts.place⟩⟩ := by
  rw [run]
  split <;> simp_all

theorem action_externals {joined : Bool} (h : ts.tokens ≠ []) :
    (externals joined).action ts =
      .replace (external :: joinedBy joined ts.place ++ [externals true]) := by
  obtain ⟨_ | ⟨t, rest⟩, stop⟩ := ts
  · contradiction
  · rfl

end Goal

namespace TokenList

theorem parse_of_run_ok {ts rest : TokenList} {events : List Event}
    (h : Goal.run [.externals false] ts = ⟨events, .ok rest⟩) : ts.parse = ⟨events, none⟩ := by
  rw [parse, h]

theorem result_of_failure {ts : TokenList} {e : SyntaxError} (h : ts.parse.failure = some e) :
    (Goal.run [.externals false] ts).result = .error e := by
  rw [parse] at h
  cases hr : (Goal.run [.externals false] ts).result with
  | ok rest => simp [hr] at h
  | error f =>
    simp only [hr, Option.some.injEq] at h
    rw [h]

/-- A text that lexes to nothing has no events. -/
theorem parse_nil (stop : Location) : parse ⟨[], stop⟩ = ⟨[], none⟩ :=
  parse_of_run_ok ((Goal.run_replace_nil rfl []).trans (Goal.run_nil _))

end TokenList

end MiniC
