import MiniC.Proofs.Run
import MiniC.Proofs.Token.Order

/-!
# Names are told in the order of the text

An event that declares or uses a name is at the place of the name. The places of these events are
those of tokens, one behind the other (`namePlaces_ordered`), whether or not the text is a
program.

A name is told when it is read, or one token later : a variable waits for the token behind it, which
decides whether it has an initializer. Of a stack of goals only the first one can keep the place of
a name that was read, and the places of the events of a run are that one and then places of tokens,
in their order (`Goal.namePlaces_run`).
-/

namespace MiniC

/-- Whether the rule declares a name or uses one. -/
def Rule.names : Rule → Bool
  | functionDeclarator _ _ | parameter _ _ | declTarget _ | declarator _ | identifier _ => true
  | _ => false

/-- The place of the name that the event declares or uses, if it does. -/
def Event.namePlaces (e : Event) : List Location := if e.rule.names then [e.location] else []

namespace Goal

/-- The place of the name that was read for the goal and has yet to be told, if there is one. -/
def namePlaces : Goal → List Location
  | emit rule loc => Event.namePlaces ⟨rule, loc⟩
  | initializer _ loc => [loc]
  | _ => []

/-- No goal but the first keeps the place of a name. -/
def KeepsFirst (goals : List Goal) : Prop := goals.tail.flatMap namePlaces = []

variable {goal : Goal} {goals new : List Goal} {ts : TokenList}

theorem keepsFirst_of_eq_nil (h : goals.flatMap namePlaces = []) : KeepsFirst goals := by
  cases goals with
  | nil => rfl
  | cons goal goals => exact (List.append_eq_nil_iff.1 h).2

theorem KeepsFirst.append (h : KeepsFirst new) (hg : goals.flatMap namePlaces = []) :
    KeepsFirst (new ++ goals) := by
  cases new with
  | nil => exact keepsFirst_of_eq_nil hg
  | cons first new =>
    change (new ++ goals).flatMap namePlaces = []
    rw [List.flatMap_append, hg, List.append_nil]
    exact h

/-- Of the goals that take the place of one, only the first can keep the place of a name, and that
is the one that was kept before, or that of the token that was read. -/
theorem namePlaces_action (h : (goal.action ts).goals? = some new) :
    KeepsFirst new ∧ (new.flatMap namePlaces = [] ∨ new.flatMap namePlaces = goal.namePlaces ∨
      ∃ t rest, goal.action ts = .read new rest ∧ ts.tokens = t :: rest ∧
        new.flatMap namePlaces = [t.location]) := by
  revert h
  cases goal <;> simp only [action, externalAction, statementAction, primaryAction]
  case sign p context rule =>
    (repeat' split) <;> intro h <;> cases h
    next loc rest heq _ =>
      cases rule with
      | none => exact ⟨rfl, .inl rfl⟩
      | some rule =>
        have hplaces : Event.namePlaces ⟨rule, loc⟩ = [] ∨ Event.namePlaces ⟨rule, loc⟩ = [loc] := by
          unfold Event.namePlaces
          split <;> simp
        refine ⟨rfl, hplaces.imp (fun hn => ?_) fun hn => .inr ⟨_, rest, rfl, heq, ?_⟩⟩
        · exact (List.append_nil _).trans hn
        · exact (List.append_nil _).trans hn
  case operands level =>
    intro h
    cases h
    cases level <;> exact ⟨rfl, .inl rfl⟩
  case moreOperands level =>
    (repeat' split) <;> intro h <;> cases h
    all_goals cases level <;> exact ⟨rfl, .inl rfl⟩
  case externals joined | items joined =>
    (repeat' split) <;> intro h <;> cases h
    all_goals cases joined <;> exact ⟨rfl, .inl rfl⟩
  case initializer =>
    (repeat' split) <;> intro h <;> cases h <;> exact ⟨rfl, .inr (.inl rfl)⟩
  -- a name that is read is told next
  case function | parameterName | declarator | primary =>
    (repeat' split) <;> intro h <;> cases h
    all_goals first
      | exact ⟨rfl, .inl rfl⟩
      | exact ⟨rfl, .inr (.inr ⟨_, _, rfl, ‹_›, rfl⟩)⟩
  all_goals (repeat' split) <;> intro h <;> cases h <;> exact ⟨rfl, .inl rfl⟩

/-- The names of a run are told at the place that the first goal keeps, and then at places of
tokens, in their order. -/
theorem namePlaces_run (h : KeepsFirst goals) :
    ((run goals ts).events.flatMap Event.namePlaces).Sublist
      (goals.flatMap namePlaces ++ ts.tokens.map Token.location) := by
  fun_induction run goals ts with
  | case1 | case5 => exact List.nil_sublist _
  | case2 ts goal goals event hact r =>
    rename_i ih
    obtain rfl := eq_emit hact
    rw [List.flatMap_cons, List.flatMap_cons, List.append_assoc]
    exact (ih (keepsFirst_of_eq_nil h)).append_left _
  | case3 ts goal goals new hact ih =>
    have hg : goals.flatMap namePlaces = [] := h
    obtain ⟨hfirst, hnew⟩ : KeepsFirst new ∧ _ := namePlaces_action (by rw [hact]; rfl)
    refine (ih (hfirst.append hg)).trans ?_
    rw [List.flatMap_append, List.flatMap_cons, hg, List.append_nil, List.append_nil]
    rcases hnew with hn | hn | ⟨t, rest, hread, -⟩
    · rw [hn]
      exact List.sublist_append_right ..
    · rw [hn]
    · cases hact.symm.trans hread
  | case4 ts goal goals new rest hact ih =>
    have hg : goals.flatMap namePlaces = [] := h
    obtain ⟨hfirst, hnew⟩ : KeepsFirst new ∧ _ := namePlaces_action (by rw [hact]; rfl)
    refine (ih (hfirst.append hg)).trans ?_
    obtain ⟨t, ht⟩ := eq_cons_of_read hact
    rw [List.flatMap_append, List.flatMap_cons, hg, List.append_nil, List.append_nil, ht,
      List.map_cons]
    have hrest : (rest.map Token.location).Sublist (t.location :: rest.map Token.location) :=
      List.sublist_cons_self ..
    rcases hnew with hn | hn | ⟨t', rest', -, ht', hn⟩
    · rw [hn]
      exact hrest.trans (List.sublist_append_right ..)
    · rw [hn]
      exact hrest.append_left _
    · obtain ⟨rfl, -⟩ := List.cons.inj (ht.symm.trans ht')
      rw [hn]
      exact List.sublist_append_right ..

end Goal

/-- The names of a parse are told at places of tokens, in their order. -/
theorem TokenList.namePlaces_parse (ts : TokenList) :
    (ts.parse.events.flatMap Event.namePlaces).Sublist (ts.tokens.map Token.location) :=
  Goal.namePlaces_run rfl

/-- The names of a source are told one behind the other. -/
theorem namePlaces_ordered (source : String) :
    ((parse source).events.flatMap Event.namePlaces).Pairwise Location.Precedes := by
  unfold parse
  split
  · next ts ht =>
    exact (List.pairwise_map.2 (tokenize_ordered ht)).sublist ts.namePlaces_parse
  · exact .nil

end MiniC
