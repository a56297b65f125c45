import Mathlib
import MiniC.Proofs.Grammar.Program
import MiniC.Proofs.Grammar.Recognition
import MiniC.Proofs.Grammar.Stuck

/-!
# What was read can always be finished

`Goal.readCount` is the number of tokens that a run reads, and the error of a run is about the next
one (`Goal.error_of_run`). `Goal.Resumes` says of some tokens that they finish the goals behind
those that were read : the run succeeds then, and begins with the events of the one that failed.
There are such tokens whenever the run of a stack fails (`Goal.exists_resumes`) : the completion of
the goals that were left, all of it at the place of the error.

For a source text this is `parse_viable_prefix` : the parser never reads past the first token that
no program has there, and never completes a rule that no program completes.
-/

namespace MiniC

/-- The same action with the tokens `rest` behind the one that it reads. -/
def Action.onto (rest : List Token) : Action → Action
  | read new _ => read new rest
  | replace new => replace new
  | emit event => emit event
  | fail what => fail what

namespace Goal

variable {goal : Goal} {goals new : List Goal} {ts : TokenList}

/-! ## One token decides -/

/-- A goal that is no external declaration looks at the first token alone. -/
theorem action_onto (hne : goal ≠ external) (t : Token) (rest more : List Token)
    (stop : Location) :
    goal.action ⟨t :: more, stop⟩ = (goal.action ⟨t :: rest, stop⟩).onto more := by
  obtain ⟨kind, loc⟩ := t
  cases goal with
  | external => contradiction
  | sign p context rule =>
    cases kind with
    | punct q =>
      simp only [action]
      split <;> rfl
    | _ => rfl
  | moreOperands level =>
    cases kind with
    | punct p =>
      simp only [action]
      split
      · split <;> rfl
      · rfl
    | _ => rfl
  | _ =>
    cases kind with
    | punct p => cases p <;> rfl
    | keyword word => cases word <;> rfl
    | _ => rfl

/-- An external declaration looks at three tokens, but its goals succeed only if it is theirs. -/
theorem action_external_of_run {ts' rest : TokenList} (h : external.action ts = .replace new)
    (hr : (run (new ++ goals) ts').result = .ok rest) : external.action ts' = .replace new := by
  obtain ⟨w, hw, hall⟩ := acceptsAll_of_run hr
  obtain ⟨tokens, stop⟩ := ts'
  obtain rfl : tokens = w ++ rest.tokens := hw
  simp only [action, externalAction] at h
  (repeat' split at h) <;> cases h
  · obtain ⟨_, v, rfl, ⟨d, rfl⟩, -⟩ := hall
    rw [List.append_assoc]
    exact d.action_external (v ++ rest.tokens) stop
  · obtain ⟨_, v, rfl, ⟨f, rfl⟩, -⟩ := hall
    simp only [Definition.tokens, List.append_assoc, List.cons_append]
    rfl

/-- The same of one behind its type. -/
theorem action_typedFunction_of_run {t : Token} {more more' : List Token} {stop : Location}
    {rest : TokenList} (h : external.action ⟨t :: more, stop⟩ = .read new more)
    (hr : (run (new ++ goals) ⟨more', stop⟩).result = .ok rest) :
    external.action ⟨t :: more', stop⟩ = .read new more' := by
  obtain ⟨w, hw, hall⟩ := acceptsAll_of_run hr
  obtain rfl : more' = w ++ rest.tokens := hw
  simp only [action, externalAction] at h
  (repeat' split at h) <;> cases h
  obtain ⟨_, _, rfl, rfl, _, v, rfl, ⟨f, rfl⟩, -⟩ := hall
  simp only [Definition.tokens, List.append_assoc, List.cons_append, List.nil_append]
  obtain ⟨rfl, -⟩ := List.cons.inj ‹t :: more = _›
  rfl

/-! ## Where a run stops -/

/-- The number of tokens that the goals read, up to the error if there is one. -/
def readCount (goals : List Goal) (ts : TokenList) : Nat :=
  match goals with
  | [] => 0
  | goal :: goals =>
    match _h : goal.action ts with
    | .emit _ => readCount goals ts
    | .replace new => readCount (new ++ goals) ts
    | .read new rest => readCount (new ++ goals) ⟨rest, ts.stop⟩ + 1
    | .fail _ => 0
termination_by (ts.tokens.length, stackWeight goals)
decreasing_by
  · exact .right _ (by simp [eq_emit _h, stackWeight, reads, weight])
  · exact .right _ (stackWeight_replace goals _h)
  · exact .left _ _ (length_read _h)

theorem readCount_emit (rule : Rule) (loc : Location) (goals : List Goal) (ts : TokenList) :
    readCount (emit rule loc :: goals) ts = readCount goals ts := by
  rw [readCount]
  rfl

theorem readCount_replace (h : goal.action ts = .replace new) (goals : List Goal) :
    readCount (goal :: goals) ts = readCount (new ++ goals) ts := by
  rw [readCount]
  split <;> simp_all

theorem readCount_read {rest : List Token} (h : goal.action ts = .read new rest)
    (goals : List Goal) :
    readCount (goal :: goals) ts = readCount (new ++ goals) ⟨rest, ts.stop⟩ + 1 := by
  rw [readCount]
  split <;> simp_all

theorem readCount_fail {what : Expectation} (h : goal.action ts = .fail what) (goals : List Goal) :
    readCount (goal :: goals) ts = 0 := by
  rw [readCount]
  split <;> simp_all

theorem readCount_le (goals : List Goal) (ts : TokenList) :
    readCount goals ts ≤ ts.tokens.length := by
  fun_induction readCount goals ts with
  | case1 | case5 => exact Nat.zero_le _
  | case2 ts goal goals event h ih => exact ih
  | case3 ts goal goals new h ih => exact ih
  | case4 ts goal goals new rest h ih =>
    obtain ⟨t, ht⟩ := eq_cons_of_read h
    rw [ht]
    exact Nat.succ_le_succ ih

/-- The tokens behind those that the goals read. -/
def leftOver (goals : List Goal) (ts : TokenList) : TokenList :=
  ⟨ts.tokens.drop (readCount goals ts), ts.stop⟩

/-- The error of a run is about the first token that was not read. -/
theorem error_of_run {e : SyntaxError} (h : (run goals ts).result = .error e) :
    ∃ what, e = ⟨.unexpected what ((leftOver goals ts).tokens.head?.map Token.kind),
      (leftOver goals ts).place⟩ := by
  fun_induction run goals ts with
  | case1 ts => cases h
  | case2 ts goal goals event ha r =>
    rename_i ih
    obtain rfl := eq_emit ha
    rw [leftOver, readCount_emit]
    exact ih h
  | case3 ts goal goals new ha ih =>
    rw [leftOver, readCount_replace ha]
    exact ih h
  | case4 ts goal goals new rest ha ih =>
    obtain ⟨t, ht⟩ := eq_cons_of_read ha
    rw [leftOver, readCount_read ha, ht, List.drop_succ_cons]
    exact ih h
  | case5 ts goal goals what ha =>
    rw [leftOver, readCount_fail ha]
    exact ⟨what, (Except.error.inj h).symm⟩

/-- Behind the tokens that the goals read, the tokens `w` finish them. What was told before the
error is told again. -/
structure Resumes (goals : List Goal) (ts : TokenList) (w : List Token) : Prop where
  result : (run goals ⟨ts.tokens.take (readCount goals ts) ++ w, ts.stop⟩).result =
    .ok ⟨[], ts.stop⟩
  events : (run goals ts).events <+:
    (run goals ⟨ts.tokens.take (readCount goals ts) ++ w, ts.stop⟩).events
  first : readCount goals ts = 0 → ∃ kind rest, w = ⟨kind, ts.place⟩ :: rest ∧ Asks goals kind

namespace Resumes

variable {w : List Token}

theorem emit (hw : Resumes goals ts w) (rule : Rule) (loc : Location) :
    Resumes (.emit rule loc :: goals) ts w := by
  have hn := readCount_emit rule loc goals ts
  refine ⟨?_, ?_, fun h0 => ?_⟩
  · rw [hn, run_emit]
    exact hw.result
  · rw [hn, run_emit, run_emit]
    exact List.prefix_cons_inj _ |>.2 hw.events
  · obtain ⟨kind, rest, rfl, ha⟩ := hw.first (hn.symm.trans h0)
    exact ⟨kind, rest, rfl, (asks_of_ask_eq_nil rfl rfl).2 ha⟩

/-- The goal is replaced in front of the other tokens too : by what the goals in its place can be
stuck for if no token was read, or else by the first token. -/
theorem action_eq (hw : Resumes (new ++ goals) ts w) (hs : Stacked (goal :: goals))
    (h : goal.action ts = .replace new) :
    goal.action ⟨ts.tokens.take (readCount (new ++ goals) ts) ++ w, ts.stop⟩ = .replace new := by
  by_cases hne : goal = external
  · subst hne
    exact action_external_of_run h hw.result
  cases hn : readCount (new ++ goals) ts with
  | zero =>
    obtain ⟨kind, rest, rfl, ha⟩ := hw.first hn
    exact action_of_asks hs hne h ha rest ts.stop
  | succ n =>
    have hle := readCount_le (new ++ goals) ts
    obtain ⟨_ | ⟨t, more⟩, stop⟩ := ts
    · rw [hn] at hle
      exact absurd hle (Nat.not_succ_le_zero n)
    · rw [List.take_succ_cons, List.cons_append, action_onto hne t more, h]
      rfl

theorem replace (hw : Resumes (new ++ goals) ts w) (hs : Stacked (goal :: goals))
    (h : goal.action ts = .replace new) : Resumes (goal :: goals) ts w := by
  have hn := readCount_replace h goals
  have hw' := hw.action_eq hs h
  refine ⟨?_, ?_, fun h0 => ?_⟩
  · rw [hn, run_replace hw']
    exact hw.result
  · rw [hn, run_replace h, run_replace hw']
    exact hw.events
  · obtain ⟨kind, rest, rfl, ha⟩ := hw.first (hn.symm.trans h0)
    exact ⟨kind, rest, rfl, asks_of_replace h ha⟩

theorem read {rest : List Token} (hw : Resumes (new ++ goals) ⟨rest, ts.stop⟩ w)
    (h : goal.action ts = .read new rest) : Resumes (goal :: goals) ts w := by
  have hn := readCount_read h goals
  obtain ⟨t, ht⟩ := eq_cons_of_read h
  obtain ⟨tokens, stop⟩ := ts
  obtain rfl : tokens = t :: rest := ht
  have hw' : goal.action ⟨t :: (rest.take (readCount (new ++ goals) ⟨rest, stop⟩) ++ w), stop⟩ =
      .read new (rest.take (readCount (new ++ goals) ⟨rest, stop⟩) ++ w) := by
    by_cases hne : goal = external
    · subst hne
      exact action_typedFunction_of_run h hw.result
    · rw [action_onto hne t rest, h]
      rfl
  refine ⟨?_, ?_, fun h0 => ?_⟩
  · rw [hn, List.take_succ_cons, List.cons_append, run_read hw']
    exact hw.result
  · rw [hn, List.take_succ_cons, List.cons_append, run_read hw', run_read h]
    exact hw.events
  · rw [hn] at h0
    cases h0

end Resumes

/-- In front of the completion of the goals that are left, nothing was read in vain. -/
theorem resumes_of_fail {what : Expectation} (hs : Stacked (goal :: goals))
    (h : goal.action ts = .fail what) :
    Resumes (goal :: goals) ts (completionAt ts.place (goal :: goals)) := by
  have hn := readCount_fail h goals
  refine ⟨?_, ?_, fun _ => ?_⟩
  · rw [hn, List.take_zero, List.nil_append]
    exact @run_completion _ ⟨_, ts.stop⟩ _ hs rfl
  · rw [run_fail h]
    exact List.nil_prefix
  · obtain ⟨kind, more, hc, ha⟩ := mem_ask_of_fail h
    refine ⟨kind, more.map (⟨·, ts.place⟩) ++ completionAt ts.place goals, ?_, .inl ha⟩
    rw [completionAt_cons, hc]
    rfl

/-- Whatever the goals fail on, what they read can be finished. -/
theorem exists_resumes {e : SyntaxError} (hs : Stacked goals)
    (h : (run goals ts).result = .error e) : ∃ w, Resumes goals ts w := by
  fun_induction run goals ts with
  | case1 ts => cases h
  | case2 ts goal goals event ha r =>
    rename_i ih
    obtain rfl := eq_emit ha
    obtain ⟨w, hw⟩ := ih hs.2 h
    exact ⟨w, hw.emit _ _⟩
  | case3 ts goal goals new ha ih =>
    obtain ⟨w, hw⟩ := ih (stacked_of_goals? hs (by rw [ha]; rfl)) h
    exact ⟨w, hw.replace hs ha⟩
  | case4 ts goal goals new rest ha ih =>
    obtain ⟨w, hw⟩ := ih (stacked_of_goals? hs (by rw [ha]; rfl)) h
    exact ⟨w, hw.read ha⟩
  | case5 ts goal goals what ha => exact ⟨_, resumes_of_fail hs ha⟩

end Goal

/-- The number of tokens in front of the one that the parser stops at. -/
def TokenList.readCount (ts : TokenList) : Nat := Goal.readCount [.externals false] ts

/-- A text of tokens that is not parsed is one up to some token, the one of the error, and goes on
otherwise behind it : with other tokens from there to the end it is parsed, and the events in front
of the error are the first of that parse. -/
theorem parse_viable_prefix {source : String} {ts : TokenList} {e : SyntaxError}
    (ht : tokenize source = .ok ts) (he : (parse source).failure = some e) :
    ts.readCount ≤ ts.tokens.length ∧
      (∃ what, e = ⟨.unexpected what (ts.tokens[ts.readCount]?.map Token.kind),
        TokenList.place ⟨ts.tokens.drop ts.readCount, ts.stop⟩⟩) ∧
      ∃ w, (TokenList.parse ⟨ts.tokens.take ts.readCount ++ w, ts.stop⟩).failure = none ∧
        (parse source).events <+:
          (TokenList.parse ⟨ts.tokens.take ts.readCount ++ w, ts.stop⟩).events := by
  have hp : parse source = ts.parse := by rw [parse, ht]
  rw [hp] at he ⊢
  have hr := TokenList.result_of_failure he
  have hs : Goal.Stacked [.externals false] := ⟨rfl, trivial⟩
  obtain ⟨what, hwhat⟩ := Goal.error_of_run hr
  obtain ⟨w, hw⟩ := Goal.exists_resumes hs hr
  refine ⟨Goal.readCount_le _ ts, ⟨what, ?_⟩, w, ?_, hw.events⟩
  · rw [hwhat, Goal.leftOver, List.head?_drop]
    rfl
  · rw [TokenList.parse]
    have hok := hw.result
    rw [← TokenList.readCount] at hok
    rw [hok]

/-- The parser stops at the parenthesis behind a conditional statement that could still get an else
branch. -/
theorem strayParenthesis_viable_prefix : ∃ ts e, tokenize "int f()\x7bif(a)b;)" = .ok ts ∧
    (parse "int f()\x7bif(a)b;)").failure = some e ∧ ts.readCount = 11 ∧
      ∃ w, (TokenList.parse ⟨ts.tokens.take 11 ++ w, ts.stop⟩).failure = none ∧
        (parse "int f()\x7bif(a)b;)").events <+:
          (TokenList.parse ⟨ts.tokens.take 11 ++ w, ts.stop⟩).events := by
  obtain ⟨ts, ht⟩ : ∃ ts, tokenize "int f()\x7bif(a)b;)" = .ok ts := ⟨_, by cbv⟩
  obtain ⟨e, he⟩ : ∃ e, (parse "int f()\x7bif(a)b;)").failure = some e := ⟨_, by cbv⟩
  have hn : (tokenize "int f()\x7bif(a)b;)").toOption.map TokenList.readCount = some 11 := by cbv
  rw [ht] at hn
  have hn : ts.readCount = 11 := Option.some.inj hn
  obtain ⟨-, -, w, hw, hev⟩ := parse_viable_prefix ht he
  rw [hn] at hw hev
  exact ⟨ts, e, ht, he, hn, w, hw, hev⟩

end MiniC
