import MiniC.Proofs.Descent.Method

/-!
# Statements by descent

The methods for blocks and statements perform the runs of their goals.
-/

namespace MiniC

namespace Descent

variable {ts : TokenList} {call : Method → Descent Unit} {p : Progress}

theorem action_items (us : TokenList) (joined : Bool) :
    (Goal.items joined).action us =
      .replace (if us.next.kind = some (.punct .rightBrace) ∨ us.next.kind = none then
        if joined then [] else [.emit .emptyBlock us.place]
      else .item :: Goal.joinedBy joined us.place ++ [.items true]) := by
  obtain ⟨_ | ⟨⟨_ | _ | _ | _ | p, loc⟩, rest⟩, stop⟩ := us
  all_goals try rfl
  cases p <;> rfl

theorem performs_items {joined : Bool} (h : CallsPerform ts call p.position (.items joined))
    (hp : InRange ts p) :
    Performs ts p (body ts call (.items joined))
      (Goal.run [.items joined] (ts.drop p.position)) := by
  rw [body]
  refine .peek hp ?_
  rw [run_same (action_items ..)]
  split
  · cases joined
    · exact performs_emit hp ..
    · exact performs_pure hp
  · refine .then (h.here hp rfl (by simp [Method.weight])) fun q hq _ hlt => ?_
    exact performs_joined hq fun q₁ hq₁ hle => h.later hq₁ (Nat.lt_of_lt_of_le (hlt rfl) hle)

theorem performs_item (h : CallsPerform ts call p.position .item) (hp : InRange ts p) :
    Performs ts p (body ts call .item) (Goal.run [.item] (ts.drop p.position)) := by
  rw [body]
  refine .peek hp ?_
  split
  next hk =>
    obtain ⟨loc, rest, ht⟩ := TokenList.eq_cons_of_next hk
    rw [run_same (by rw [Goal.action, ht])]
    exact h.here hp rfl (by decide)
  next hno =>
    have ha : Goal.item.action (ts.drop p.position) = .replace [.statement] := by
      rw [Goal.action]
      split
      next ht => exact absurd (by rw [TokenList.next_of_cons ht]) (hno _)
      next => rfl
    rw [run_same ha]
    exact h.here hp rfl (by decide)

theorem performs_statement (h : CallsPerform ts call p.position .statement) (hp : InRange ts p) :
    Performs ts p (body ts call .statement) (Goal.run [.statement] (ts.drop p.position)) := by
  have behind {t : Token} {rest : List Token} {q : Progress} {m : Method}
      (ht : (ts.drop p.position).tokens = t :: rest) (hq : InRange ts q)
      (hpos : q.position = p.position + 1)
      (hm : m.run ts q.position =
        Goal.run (m.goals (ts.drop (q.position - 1)).place) (ts.drop q.position))
      (ha : Goal.statement.action (ts.drop p.position) = .read (m.goals t.location) rest) :
      Performs ts q (call m) (Goal.run [.statement] (ts.drop p.position)) := by
    have hl : (ts.drop (q.position - 1)).place = t.location :=
      congrArg Entry.location (next_previous ht hpos)
    rw [run_next ht ha hpos, ← hl, ← hm]
    exact h.later hq (by omega)
  rw [body]
  refine .peek hp (.accept hp (fun loc rest ht q hq hpos => ?_) fun hreturn => ?_)
  · exact behind ht hq hpos rfl (by rw [Goal.action, ht]; rfl)
  refine .accept hp (fun loc rest ht q hq hpos => ?_) fun hif => ?_
  · exact behind ht hq hpos rfl (by rw [Goal.action, ht]; rfl)
  refine .accept hp (fun loc rest ht q hq hpos => ?_) fun hwhile => ?_
  · exact behind ht hq hpos rfl (by rw [Goal.action, ht]; rfl)
  refine .accept hp (fun loc rest ht q hq hpos => ?_) fun hfor => ?_
  · exact behind ht hq hpos rfl (by rw [Goal.action, ht]; rfl)
  refine .accept hp (fun loc rest ht q hq hpos => ?_) fun hbrace => ?_
  · rw [run_next ht (by rw [Goal.action, ht, Goal.statementAction]) hpos, TokenList.next_of_cons ht]
    refine .then (performs_emit hq ..) fun q₁ hq₁ _ _ => ?_
    refine .then (h.later hq₁ (by omega)) fun q₂ hq₂ _ _ => ?_
    exact performs_expectSign_emit hq₂ ..
  · have ha : Goal.statement.action (ts.drop p.position) = .replace [.simple] := by
      simp [Goal.action, Goal.statementAction]
    rw [run_same ha]
    exact h.here hp rfl (by decide)

theorem performs_simple (h : CallsPerform ts call p.position .simple) (hp : InRange ts p) :
    Performs ts p (body ts call .simple) (Goal.run [.simple] (ts.drop p.position)) := by
  rw [body]
  refine .peek hp (.accept hp (fun loc rest ht q hq hpos => ?_) fun hno => ?_)
  · rw [run_next ht (by rw [Goal.action, ht]) hpos, TokenList.next_of_cons ht]
    exact performs_emit hq ..
  · rw [run_same (by simp only [Goal.action]; rfl)]
    exact .then (h.here hp rfl (by decide)) fun q hq _ _ => performs_expectSign hq ..

theorem performs_returned (h : CallsPerform ts call p.position .returned) (hp : InRange ts p) :
    Performs ts p (body ts call .returned)
      (Goal.run (Method.returned.goals (ts.drop (p.position - 1)).place) (ts.drop p.position)) := by
  rw [body, Method.goals]
  refine .previous hp (.check hp (fun loc rest ht => ?_) fun hno => ?_)
  · rw [run_same (by rw [Goal.action, ht])]
    exact .then (performs_expectSign hp ..) fun q hq _ _ => performs_emit hq ..
  · rw [run_same (by simp only [Goal.action]; rfl)]
    refine .then (h.here hp rfl (by decide)) fun q hq _ _ => ?_
    exact .then (performs_expectSign hq ..) fun q₁ hq₁ _ _ => performs_emit hq₁ ..

theorem performs_ifThen (h : CallsPerform ts call p.position .ifThen) (hp : InRange ts p) :
    Performs ts p (body ts call .ifThen)
      (Goal.run (Method.ifThen.goals (ts.drop (p.position - 1)).place) (ts.drop p.position)) := by
  rw [body, Method.goals]
  refine .previous hp (.then (performs_expectSign hp ..) fun q₁ hq₁ _ hlt => ?_)
  have hlt : p.position < q₁.position := hlt rfl
  refine .then (h.later hq₁ hlt) fun q₂ hq₂ _ _ => ?_
  refine .then (performs_expectSign hq₂ ..) fun q₃ hq₃ _ _ => ?_
  refine .then (h.later hq₃ (by omega)) fun q₄ hq₄ _ _ => ?_
  refine .accept hq₄ (fun loc rest ht q₅ hq₅ hpos => ?_) fun hno => ?_
  · rw [run_next ht (by rw [Goal.action, ht]) hpos]
    exact .then (h.later hq₅ (by omega)) fun q₆ hq₆ _ _ => performs_emit hq₆ ..
  · rw [run_same (by simp only [Goal.action]; rfl)]
    exact performs_emit hq₄ ..

theorem performs_whileLoop (h : CallsPerform ts call p.position .whileLoop) (hp : InRange ts p) :
    Performs ts p (body ts call .whileLoop)
      (Goal.run (Method.whileLoop.goals (ts.drop (p.position - 1)).place)
        (ts.drop p.position)) := by
  rw [body, Method.goals]
  refine .previous hp (.then (performs_expectSign hp ..) fun q₁ hq₁ _ hlt => ?_)
  have hlt : p.position < q₁.position := hlt rfl
  refine .then (h.later hq₁ hlt) fun q₂ hq₂ _ _ => ?_
  refine .then (performs_expectSign hq₂ ..) fun q₃ hq₃ _ _ => ?_
  exact .then (h.later hq₃ (by omega)) fun q₄ hq₄ _ _ => performs_emit hq₄ ..

theorem performs_forLoop (h : CallsPerform ts call p.position .forLoop) (hp : InRange ts p) :
    Performs ts p (body ts call .forLoop)
      (Goal.run (Method.forLoop.goals (ts.drop (p.position - 1)).place) (ts.drop p.position)) := by
  rw [body, Method.goals]
  refine .previous hp (.then (performs_expectSign hp ..) fun q₁ hq₁ _ hlt => ?_)
  have hlt : p.position < q₁.position := hlt rfl
  refine .then (h.later hq₁ hlt) fun q₂ hq₂ _ _ => ?_
  refine .then (h.later hq₂ (by omega)) fun q₃ hq₃ _ _ => .peek hq₃ ?_
  have body {q : Progress} (hq : InRange ts q) (hle : q₃.position ≤ q.position) :
      Performs ts q
        (expectSign ts .rightParen "after for clauses" >>= fun _ => call .statement >>= fun _ =>
          emit .forLoop (ts.drop (p.position - 1)).next.location)
        (Goal.run [.sign .rightParen "after for clauses" none, .statement,
          .emit .forLoop (ts.drop (p.position - 1)).place] (ts.drop q.position)) := by
    refine .then (performs_expectSign hq ..) fun q₁ hq₁ _ _ => ?_
    exact .then (h.later hq₁ (by omega)) fun q₂ hq₂ _ _ => performs_emit hq₂ ..
  split
  next hk =>
    obtain ⟨loc, rest, ht⟩ := TokenList.eq_cons_of_next hk
    rw [Goal.run_replace (by rw [Goal.action, ht]), List.singleton_append,
      TokenList.next_of_cons ht]
    exact .then (performs_emit hq₃ ..) fun q hq hle _ => body hq hle
  next hk =>
    have ha : Goal.increment.action (ts.drop q₃.position) = .replace [.expression] := by
      rw [Goal.action]
      split
      · exact absurd (by rw [TokenList.next_of_cons ‹_›]) hk
      · rfl
    rw [Goal.run_replace ha, List.singleton_append]
    exact .then (h.later hq₃ (by omega)) fun q hq hle _ => body hq hle

end Descent

end MiniC
