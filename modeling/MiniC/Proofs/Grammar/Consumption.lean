import MiniC.Proofs.Run

/-!
# What a run consumes

The goals of a stack are met one after the other (`Goal.run_append`), and each leaves a part of the
tokens to the next. A goal that `reads` leaves fewer tokens than it finds.
-/

namespace MiniC

namespace Run

/-- Goes on with the tokens that a run leaves, unless it fails. -/
def andThen (r : Run) (next : TokenList → Run) : Run :=
  match r.result with
  | .ok ts => (next ts).behind r.events
  | .error e => ⟨r.events, .error e⟩

theorem andThen_behind (r : Run) (events : List Event) (next : TokenList → Run) :
    (r.behind events).andThen next = (r.andThen next).behind events := by
  obtain ⟨told, _ | ts⟩ := r <;> simp [andThen, behind]

end Run

namespace Goal

variable {goal : Goal} {goals new : List Goal} {ts us : TokenList}

/-- The goals of a stack are met one after the other. -/
theorem run_append (goals more : List Goal) (ts : TokenList) :
    run (goals ++ more) ts = (run goals ts).andThen (run more) := by
  fun_induction run goals ts with
  | case1 ts => rfl
  | case2 ts goal goals event h _ ih =>
    obtain rfl := eq_emit h
    rw [List.cons_append, run_emit, ih]
    exact (Run.andThen_behind _ [event] _).symm
  | case3 ts goal goals new h ih =>
    rw [List.cons_append, run_replace h, ← ih, List.append_assoc]
  | case4 ts goal goals new rest h ih =>
    rw [List.cons_append, run_read h, ← ih, List.append_assoc]
  | case5 ts goal goals what h =>
    rw [List.cons_append, run_fail h]
    rfl

/-- A goal that reads is replaced by goals one of which does. -/
theorem any_reads_of_replace (h : goal.action ts = .replace new) (hg : goal.reads = true) :
    new.any reads = true := by
  revert h
  cases goal <;> cases hg
  case operands level =>
    intro h
    obtain rfl := Action.replace.inj h
    simp [reads_operandsBelow]
  all_goals
    simp only [action, externalAction, statementAction, primaryAction]
    (repeat' split) <;> intro h <;> cases h <;> rfl

/-- A run leaves no more tokens than it finds. -/
theorem length_le_of_run (h : (run goals ts).result = .ok us) :
    us.tokens.length ≤ ts.tokens.length := by
  fun_induction run goals ts with
  | case1 ts =>
    cases h
    exact Nat.le_refl _
  | case2 | case3 => rename_i ih; exact ih h
  | case4 ts goal goals new rest hread ih =>
    exact Nat.le_trans (ih h) (Nat.le_of_lt (length_read hread))
  | case5 => cases h

/-- A run that meets a goal that reads leaves fewer tokens than it finds. -/
theorem length_lt_of_run (h : (run goals ts).result = .ok us) (hg : goals.any reads = true) :
    us.tokens.length < ts.tokens.length := by
  fun_induction run goals ts with
  | case1 => cases hg
  | case2 ts goal goals event hemit _ ih =>
    obtain rfl := eq_emit hemit
    exact ih h hg
  | case3 ts goal goals new hreplace ih =>
    refine ih h ?_
    rw [List.any_cons, Bool.or_eq_true] at hg
    rw [List.any_append, Bool.or_eq_true]
    exact hg.imp_left (any_reads_of_replace hreplace)
  | case4 ts goal goals new rest hread =>
    exact Nat.lt_of_le_of_lt (length_le_of_run h) (length_read hread)
  | case5 => cases h

end Goal

end MiniC
