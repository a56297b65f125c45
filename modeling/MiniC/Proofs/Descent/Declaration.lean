import MiniC.Proofs.Descent.Method

/-!
# Declarations by descent

The methods for programs, functions and variables perform the runs of their goals.
-/

namespace MiniC

namespace Descent

variable {ts : TokenList} {call : Method → Descent Unit} {p : Progress}

theorem performs_program {joined : Bool} (h : CallsPerform ts call p.position (.program joined))
    (hp : InRange ts p) :
    Performs ts p (body ts call (.program joined))
      (Goal.run [.externals joined] (ts.drop p.position)) := by
  rw [body]
  refine .peek hp ?_
  cases ht : (ts.drop p.position).tokens with
  | nil =>
    rw [Goal.run_replace_nil (by rw [Goal.action, ht]), TokenList.next, ht]
    exact performs_pure hp
  | cons t rest =>
    rw [Goal.run_replace (Goal.action_externals (by simp [ht])), TokenList.next_of_cons ht,
      List.append_nil]
    refine .peek hp (.then (h.here hp rfl (by simp [Method.weight])) fun q hq _ hlt => ?_)
    exact performs_joined hq fun q₁ hq₁ hle => h.later hq₁ (Nat.lt_of_lt_of_le (hlt rfl) hle)

/-- Behind a type, the method looks at the two entries that tell a function from a variable. -/
theorem startsFunction_of_type {tokens rest : List Token} {type : DataType} {loc : Location}
    (ht : tokens = ⟨.type type, loc⟩ :: rest) :
    Goal.startsFunction tokens = (isName (tokens[1]?.map Token.kind) &&
      decide (tokens[2]?.map Token.kind = some (.punct .leftParen))) := by
  subst ht
  rcases rest with _ | ⟨⟨_ | _ | _ | _ | _, _⟩, _ | ⟨⟨_ | _ | _ | _ | p, _⟩, _⟩⟩ <;>
    first | rfl | (cases p <;> rfl)

theorem startsFunction_of_name {tokens rest : List Token} {name : String} {loc : Location}
    (ht : tokens = ⟨.name name, loc⟩ :: rest) :
    Goal.startsFunction tokens =
      decide (tokens[1]?.map Token.kind = some (.punct .leftParen)) := by
  subst ht
  rcases rest with _ | ⟨⟨_ | _ | _ | _ | p, _⟩, _⟩ <;> first | rfl | (cases p <;> rfl)

/-- Where a function definition starts, it is the external declaration. -/
theorem run_function (hf : Goal.startsFunction (ts.drop p.position).tokens = true) :
    Goal.run [.external] (ts.drop p.position) = Method.function.run ts p.position := by
  cases ht : (ts.drop p.position).tokens with
  | nil => rw [ht] at hf; cases hf
  | cons t rest =>
    obtain ⟨_ | name | type | _ | _, loc⟩ := t
    case type =>
      rw [Method.run_function_of_type ht]
      exact run_next (q := p.next) ht
        (by rw [Goal.action, ht, Goal.externalAction, ← ht, if_pos hf]) rfl
    case name =>
      rw [Method.run_function_of_ne (by simp [ht])]
      exact run_same (by rw [Goal.action, ht, Goal.externalAction, ← ht, if_pos hf])
    all_goals
      rw [ht] at hf
      cases hf

theorem performs_external (h : CallsPerform ts call p.position .external) (hp : InRange ts p) :
    Performs ts p (body ts call .external) (Goal.run [.external] (ts.drop p.position)) := by
  rw [body]
  refine .peek hp ?_
  rcases ht : (ts.drop p.position).tokens with _ | ⟨⟨kind, loc⟩, rest⟩
  · rw [TokenList.next, ht]
    exact performs_of_fail hp rfl (by simp [Goal.action, ht, Goal.externalAction])
  rw [TokenList.next_of_cons ht]
  cases kind with
  | type type =>
    refine .peekAhead (.peekAhead ?_)
    rw [← startsFunction_of_type ht]
    split
    next hf =>
      rw [run_function hf]
      exact h.here hp rfl (by decide)
    next hf =>
      rw [run_same (by rw [Goal.action, ht, Goal.externalAction, ← ht, if_neg hf])]
      exact h.here hp rfl (by decide)
  | name name =>
    refine .peekAhead ?_
    have hs := startsFunction_of_name ht
    split
    next hf =>
      rw [run_function (hs.trans (decide_eq_true hf))]
      exact h.here hp rfl (by decide)
    next hf =>
      rw [decide_eq_false hf] at hs
      refine performs_of_fail hp rfl ?_
      rw [Goal.action, ht, Goal.externalAction, ← ht, hs]
      rfl
  | literal | keyword | punct =>
    exact performs_of_fail hp rfl (by simp [Goal.action, ht, Goal.externalAction])

theorem performs_function (h : CallsPerform ts call p.position .function) (hp : InRange ts p) :
    Performs ts p (body ts call .function) (Method.function.run ts p.position) := by
  rw [body]
  refine .peek hp (.acceptType hp (fun type loc rest ht q hq hpos => ?_) fun hno => ?_)
  · rw [Method.run_function_of_type ht, ← hpos, TokenList.next_of_cons ht]
    exact .then (performs_emit hq ..) fun q₁ hq₁ _ _ => h.later hq₁ (by omega)
  · rw [Method.run_function_of_ne hno]
    exact h.here hp rfl (by decide)

theorem performs_named {typed : Bool} (h : CallsPerform ts call p.position (.named typed))
    (hp : InRange ts p) :
    Performs ts p (body ts call (.named typed))
      (Goal.run [.function typed] (ts.drop p.position)) := by
  rw [body]
  refine .expectName hp (fun name loc rest ht q hq hpos => ?_) fun hno => by simp [Goal.action]
  rw [run_next ht (by rw [Goal.action, ht]) hpos]
  refine .then (performs_emit hq ..) fun q₁ hq₁ _ _ => ?_
  refine .then (performs_expectSign hq₁ ..) fun q₂ hq₂ _ _ => ?_
  refine .then (h.later hq₂ (by omega)) fun q₃ hq₃ _ _ => ?_
  refine .then (performs_expectSign hq₃ ..) fun q₄ hq₄ _ _ => ?_
  refine .then (performs_expectSign hq₄ ..) fun q₅ hq₅ _ _ => ?_
  refine .then (h.later hq₅ (by omega)) fun q₆ hq₆ _ _ => ?_
  refine .then (performs_expectSign hq₆ ..) fun q₇ hq₇ _ _ => ?_
  exact performs_emit hq₇ ..

theorem performs_parameters (h : CallsPerform ts call p.position .parameters) (hp : InRange ts p) :
    Performs ts p (body ts call .parameters) (Goal.run [.parameters] (ts.drop p.position)) := by
  rw [body]
  refine .check hp (fun loc rest ht => ?_) fun hno => ?_
  · rw [Goal.run_replace_nil (by rw [Goal.action, ht])]
    exact performs_pure hp
  have ha : Goal.parameters.action (ts.drop p.position) = .replace [.parameter] := by
    simp [Goal.action]
  rw [run_same ha]
  refine .check hp (fun loc rest ht => .peekAhead ?_) fun hno => .peekAhead ?_
  · rw [Bool.true_and, ht, List.getElem?_cons_succ]
    split
    next hk =>
      rcases rest with _ | ⟨⟨kind, loc'⟩, rest⟩
      · cases hk
      · obtain rfl : kind = _ := Option.some.inj (of_decide_eq_true hk)
        refine .advance hp ht fun q hq hpos => ?_
        have ht' := TokenList.tokens_drop_succ ht
        rw [← hpos] at ht'
        rw [run_next ht (by rw [Goal.action, ht]) hpos,
          run_same (by simp only [Goal.action, ht']; rfl),
          Goal.run_replace_nil (by simp only [Goal.action, ht'])]
        exact performs_pure hq
    next => exact h.here hp rfl (by decide)
  · exact h.here hp rfl (by decide)

/-- The parameters behind a comma, if there is one. -/
theorem performs_moreParameters {n : Nat} (h : CallsPerform ts call n .parameter)
    (hp : InRange ts p) (hn : n < p.position) :
    Performs ts p
      (accept ts (.punct .comma) >>= fun b => if b = true then call .parameter else pure ())
      (Goal.run [.moreParameters] (ts.drop p.position)) := by
  refine .accept hp (fun loc rest ht q hq hpos => ?_) fun hno => ?_
  · rw [run_next ht (by rw [Goal.action, ht]) hpos]
    exact h.later hq (by omega)
  · rw [Goal.run_replace_nil (by simp [Goal.action])]
    exact performs_pure hp

theorem isName_of_ne {us : TokenList}
    (h : ¬∃ name loc rest, us.tokens = ⟨.name name, loc⟩ :: rest) :
    isName us.next.kind = false := by
  refine isName.eq_2 _ fun name hk => ?_
  obtain ⟨loc, rest, ht⟩ := TokenList.eq_cons_of_next hk
  exact h ⟨name, loc, rest, ht⟩

theorem performs_parameter (h : CallsPerform ts call p.position .parameter) (hp : InRange ts p) :
    Performs ts p (body ts call .parameter) (Goal.run [.parameter] (ts.drop p.position)) := by
  rw [body]
  refine .acceptType hp (fun type loc rest ht q hq hpos => .peek hq ?_) fun hno =>
    performs_of_fail hp rfl (by simp [Goal.action])
  rw [run_next ht (by rw [Goal.action, ht]) hpos]
  by_cases hname : ∃ name loc rest, (ts.drop q.position).tokens = ⟨.name name, loc⟩ :: rest
  · obtain ⟨name, loc, rest, ht⟩ := hname
    rw [TokenList.next_of_cons ht]
    refine .expectName hq (fun name loc rest ht q₁ hq₁ hpos₁ => ?_) fun hno =>
      absurd ht (hno _ _ _)
    rw [run_next ht (by rw [Goal.action, ht]) hpos₁]
    exact .then (performs_emit hq₁ ..) fun q₂ hq₂ _ _ => performs_moreParameters h hq₂ (by omega)
  · have ha :
        (Goal.parameterName type).action (ts.drop q.position) = .replace [.moreParameters] := by
      rw [Goal.action]
      split
      · exact absurd ⟨_, _, _, ‹_›⟩ hname
      · rfl
    rw [isName_of_ne hname, run_same ha]
    exact performs_moreParameters h hq (by omega)

theorem performs_declaration (h : CallsPerform ts call p.position .declaration)
    (hp : InRange ts p) :
    Performs ts p (body ts call .declaration) (Goal.run [.declaration] (ts.drop p.position)) := by
  rw [body]
  refine .peek hp (.acceptType hp (fun type loc rest ht q hq hpos => ?_) fun hno =>
    performs_of_fail hp rfl (by simp [Goal.action]))
  rw [run_next ht (by rw [Goal.action, ht]) hpos, TokenList.next_of_cons ht]
  refine .then (performs_emit hq ..) fun q₁ hq₁ _ _ => ?_
  refine .then (h.later hq₁ (by omega)) fun q₂ hq₂ _ _ => ?_
  refine .then (h.later hq₂ (by omega)) fun q₃ hq₃ _ _ => ?_
  exact performs_expectSign_emit hq₃ ..

theorem performs_moreDeclarators (h : CallsPerform ts call p.position .moreDeclarators)
    (hp : InRange ts p) :
    Performs ts p (body ts call .moreDeclarators)
      (Goal.run [.moreDeclarators] (ts.drop p.position)) := by
  rw [body]
  exact performs_commas hp h.later h.later (fun loc rest ht => by rw [Goal.action, ht])
    fun hno => by simp [Goal.action]

theorem performs_declarator (h : CallsPerform ts call p.position .declarator) (hp : InRange ts p) :
    Performs ts p (body ts call .declarator) (Goal.run [.declarator] (ts.drop p.position)) := by
  rw [body]
  refine .expectName hp (fun name loc rest ht q hq hpos => ?_) fun hno => by simp [Goal.action]
  rw [run_next ht (by rw [Goal.action, ht]) hpos]
  refine .accept hq (fun eqLoc rest ht q₁ hq₁ hpos₁ => ?_) fun hno => ?_
  · rw [run_next ht (by rw [Goal.action, ht]) hpos₁]
    refine .then (performs_emit hq₁ ..) fun q₂ hq₂ _ _ => ?_
    exact .then (h.later hq₂ (by omega)) fun q₃ hq₃ _ _ => performs_emit hq₃ ..
  · rw [run_same (by simp only [Goal.action]; rfl)]
    exact performs_emit hq ..

end Descent

end MiniC
