import MiniC.Proofs.Grammar.Lookahead

/-!
# An expression is read as its derivation

In front of the text of a term, with a token behind it that does not go on with it, the goals of its
tier are met, and tell the events of the term. `Term.Runs` says so of one term, and there is one
lemma for each way to build a term of others; `Term.runs` is the induction.
-/

namespace MiniC

namespace Term

variable {goals : List Goal} {rest : List Token} {stop : Location}

/-- A term that is read in front of a token that may go on with it, with the goals for that left. -/
def Runs {tier : Tier} (e : Term tier) : Prop :=
  ∀ (goals : List Goal) (rest : List Token) (stop : Location), tier.bound ≤ looseness rest →
    Goal.run (tier.before ++ goals) ⟨e.tokens ++ rest, stop⟩ =
      (Goal.run (tier.after ++ goals) ⟨rest, stop⟩).behind e.events

/-- In front of a token that ends the term nothing is left. -/
theorem Runs.closed {tier : Tier} {e : Term tier} (he : e.Runs)
    (h : tier.closed ≤ looseness rest) :
    Goal.run (tier.before ++ goals) ⟨e.tokens ++ rest, stop⟩ =
      (Goal.run goals ⟨rest, stop⟩).behind e.events := by
  rw [he goals rest stop (Nat.le_trans tier.bound_le_closed h), Goal.run_after h]

theorem Runs.expression {e : Term .expression} (he : e.Runs) (h : 9 ≤ looseness rest) :
    Goal.run (.expression :: goals) ⟨e.tokens ++ rest, stop⟩ =
      (Goal.run goals ⟨rest, stop⟩).behind e.events :=
  (Goal.run_replace rfl goals).trans (he.closed h)

theorem runs_literal (value : Value) (loc : Location) : (literal value loc).Runs := by
  intro goals rest stop _
  exact (Goal.run_read rfl goals).trans (Goal.run_emit ..)

theorem runs_identifier (name : String) (loc : Location) : (identifier name loc).Runs := by
  intro goals rest stop _
  exact (Goal.run_read rfl goals).trans (Goal.run_emit ..)

theorem Runs.parens {e : Term .expression} (he : e.Runs) (left right : Location) :
    (parens left e right).Runs := by
  intro goals rest stop _
  simp only [tokens, List.cons_append, List.append_assoc, List.nil_append]
  refine (Goal.run_read rfl goals).trans ?_
  refine (he.expression (Nat.le_refl _)).trans ?_
  exact congrArg _ (Goal.run_read rfl goals)

theorem Runs.ofPrimary {e : Term .primary} (he : e.Runs) : (ofPrimary e).Runs := by
  intro goals rest stop _
  exact he (.morePostfixed :: goals) rest stop (Nat.zero_le _)

theorem Runs.postfixed {e : Term .postfixed} (he : e.Runs) {p : Punct} {op : PostfixOp}
    (h : p.postfixOp? = some op) (loc : Location) : (postfixed e h loc).Runs := by
  intro goals rest stop _
  simp only [tokens, List.append_assoc, List.cons_append, List.nil_append]
  have hr : Goal.morePostfixed.action ⟨⟨.punct p, loc⟩ :: rest, stop⟩ =
      .read [.emit (.postfixed op) loc, .morePostfixed] rest := by simp only [Goal.action, h]
  refine (he goals _ stop (Nat.zero_le _)).trans (Run.behind_eq ?_ _)
  exact (Goal.run_read hr goals).trans (Goal.run_emit ..)

/-- The first token tells a term without an operator in front of it. -/
theorem Runs.ofPostfixed {e : Term .postfixed} (he : e.Runs) : (ofPostfixed e).Runs := by
  intro goals rest stop h
  have hr : Goal.unary.action ⟨e.tokens ++ rest, stop⟩ = .replace [.primary, .morePostfixed] := by
    obtain ⟨⟨kind, loc⟩, more, ht, hs⟩ := e.starts_postfixed
    rw [ht]
    cases kind with
    | punct p => cases p <;> first | rfl | cases hs
    | _ => rfl
  exact (Goal.run_replace hr goals).trans (he.closed h)

theorem Runs.unary {e : Term .unary} (he : e.Runs) {p : Punct} {op : UnaryOp}
    (h : p.unaryOp? = some op) (loc : Location) : (unary h loc e).Runs := by
  intro goals rest stop hl
  have hr : Goal.unary.action ⟨⟨.punct p, loc⟩ :: (e.tokens ++ rest), stop⟩ =
      .read [.unary, .emit (.unary op) loc] (e.tokens ++ rest) := by simp only [Goal.action, h]
  refine (Goal.run_read hr goals).trans ?_
  refine (he (.emit (.unary op) loc :: goals) rest stop hl).trans ?_
  exact Run.behind_eq (Goal.run_emit ..) _

theorem Runs.ofBelow {level : Precedence} {e : Term level.below} (he : e.Runs) :
    (ofBelow e).Runs := by
  intro goals rest stop h
  refine (Goal.run_operandsBelow level _ _).trans ?_
  exact he.closed ((Tier.closed_below level).symm ▸ h)

theorem Runs.binary {level : Precedence} {lhs : Term (.operands level)} {rhs : Term level.below}
    (hlhs : lhs.Runs) (hrhs : rhs.Runs) {p : Punct} {op : BinaryOp} (h : p.binaryOp? = some op)
    (hl : op.precedence = level) (loc : Location) : (binary lhs h hl loc rhs).Runs := by
  intro goals rest stop hb
  simp only [tokens, List.append_assoc, List.cons_append]
  have hp : level.rank + 1 ≤ looseness (⟨.punct p, loc⟩ :: (rhs.tokens ++ rest)) :=
    Nat.le_of_eq (hl ▸ (Punct.looseness_of_binaryOp? h).symm)
  have hr : (Goal.moreOperands level).action ⟨⟨.punct p, loc⟩ :: (rhs.tokens ++ rest), stop⟩ =
      .read [.operandsBelow level, .emit (.binary op) loc, .moreOperands level]
        (rhs.tokens ++ rest) := by simp only [Goal.action, h, hl, if_true]
  calc
    _ = (Goal.run (.moreOperands level :: goals) ⟨⟨.punct p, loc⟩ :: (rhs.tokens ++ rest),
          stop⟩).behind lhs.events := hlhs goals _ stop hp
    _ = (Goal.run (.emit (.binary op) loc :: .moreOperands level :: goals)
          ⟨rest, stop⟩).behind (lhs.events ++ rhs.events) := by
      refine Run.behind_eq ((Goal.run_read hr goals).trans ?_) _
      refine (Goal.run_operandsBelow level _ _).trans ?_
      exact hrhs.closed ((Tier.closed_below level).symm ▸ hb)
    _ = _ := Run.behind_eq (Goal.run_emit ..) _

theorem Runs.ofOperands {e : Term (.operands .equality)} (he : e.Runs) : (ofOperands e).Runs := by
  intro goals rest stop h
  have hc : (Tier.operands .equality).closed ≤ looseness rest := Nat.le_of_succ_le h
  refine (Goal.run_replace rfl goals).trans ((Goal.run_replace rfl _).trans ?_)
  refine (he.closed hc).trans (congrArg _ ?_)
  exact Goal.run_moreConditional_nil h

theorem Runs.ternary {condition : Term (.operands .equality)} {yes : Term .expression}
    {no : Term .conditional} (hcondition : condition.Runs) (hyes : yes.Runs) (hno : no.Runs)
    (question colon : Location) : (ternary condition question yes colon no).Runs := by
  intro goals rest stop h
  simp only [tokens, List.append_assoc, List.cons_append]
  have hquestion : 6 ≤ looseness (⟨.punct .question, question⟩ ::
      (yes.tokens ++ ⟨.punct .colon, colon⟩ :: (no.tokens ++ rest))) := Nat.le_refl 6
  have hcolon : 9 ≤ looseness (⟨.punct .colon, colon⟩ :: (no.tokens ++ rest)) := Nat.le_refl 9
  calc
    _ = (Goal.run (.moreConditional :: goals) ⟨⟨.punct .question, question⟩ ::
          (yes.tokens ++ ⟨.punct .colon, colon⟩ :: (no.tokens ++ rest)), stop⟩).behind
          condition.events := by
      refine (Goal.run_replace rfl goals).trans ((Goal.run_replace rfl _).trans ?_)
      exact hcondition.closed hquestion
    _ = (Goal.run (.sign .colon "in ternary expression" none :: .conditional ::
          .emit .ternary question :: goals) ⟨⟨.punct .colon, colon⟩ :: (no.tokens ++ rest),
          stop⟩).behind (condition.events ++ yes.events) :=
      Run.behind_eq ((Goal.run_read rfl goals).trans (hyes.expression hcolon)) _
    _ = (Goal.run (.emit .ternary question :: goals) ⟨rest, stop⟩).behind
          (condition.events ++ yes.events ++ no.events) := by
      refine Run.behind_eq ((Goal.run_read rfl _).trans ?_) _
      exact hno.closed h
    _ = _ := Run.behind_eq (Goal.run_emit ..) _

theorem Runs.ofConditional {e : Term .conditional} (he : e.Runs) : (ofConditional e).Runs := by
  intro goals rest stop h
  refine (Goal.run_replace rfl goals).trans ?_
  refine (he.closed (Nat.le_of_succ_le h)).trans (congrArg _ ?_)
  exact Goal.run_moreAssignment_nil h

theorem Runs.assign {target : Term .conditional} {source : Term .assignment}
    (htarget : target.Runs) (hsource : source.Runs) {p : Punct} {op : AssignOp}
    (h : p.assignOp? = some op) (loc : Location) : (assign target h loc source).Runs := by
  intro goals rest stop hb
  simp only [tokens, List.append_assoc, List.cons_append]
  have hp : 7 ≤ looseness (⟨.punct p, loc⟩ :: (source.tokens ++ rest)) :=
    Nat.le_of_eq (Punct.looseness_of_assignOp? h).symm
  have hr : Goal.moreAssignment.action ⟨⟨.punct p, loc⟩ :: (source.tokens ++ rest), stop⟩ =
      .read [.assignment, .emit (.assign op) loc] (source.tokens ++ rest) := by
    simp only [Goal.action, h]
  calc
    _ = (Goal.run (.moreAssignment :: goals) ⟨⟨.punct p, loc⟩ :: (source.tokens ++ rest),
          stop⟩).behind target.events := (Goal.run_replace rfl goals).trans (htarget.closed hp)
    _ = (Goal.run (.emit (.assign op) loc :: goals) ⟨rest, stop⟩).behind
          (target.events ++ source.events) :=
      Run.behind_eq ((Goal.run_read hr goals).trans (hsource.closed hb)) _
    _ = _ := Run.behind_eq (Goal.run_emit ..) _

theorem Runs.ofAssignment {e : Term .assignment} (he : e.Runs) : (ofAssignment e).Runs := by
  intro goals rest stop h
  exact he (.moreExpressions :: goals) rest stop h

theorem Runs.comma {first : Term .expression} {second : Term .assignment} (hfirst : first.Runs)
    (hsecond : second.Runs) (loc : Location) : (comma first loc second).Runs := by
  intro goals rest stop h
  simp only [tokens, List.append_assoc, List.cons_append]
  have hcomma : 8 ≤ looseness (⟨.punct .comma, loc⟩ :: (second.tokens ++ rest)) := Nat.le_refl 8
  calc
    _ = (Goal.run (.moreExpressions :: goals) ⟨⟨.punct .comma, loc⟩ :: (second.tokens ++ rest),
          stop⟩).behind first.events := hfirst goals _ stop hcomma
    _ = (Goal.run (.emit .comma loc :: .moreExpressions :: goals) ⟨rest, stop⟩).behind
          (first.events ++ second.events) := by
      refine Run.behind_eq ((Goal.run_read rfl goals).trans ?_) _
      exact hsecond.closed h
    _ = _ := Run.behind_eq (Goal.run_emit ..) _

/-- Every term is read. -/
theorem runs {tier : Tier} (e : Term tier) : e.Runs := by
  induction e with
  | literal value loc => exact runs_literal value loc
  | identifier name loc => exact runs_identifier name loc
  | parens left e right ih => exact ih.parens left right
  | ofPrimary e ih => exact ih.ofPrimary
  | postfixed e h loc ih => exact ih.postfixed h loc
  | ofPostfixed e ih => exact ih.ofPostfixed
  | unary h loc e ih => exact ih.unary h loc
  | ofBelow e ih => exact ih.ofBelow
  | binary lhs h hl loc rhs ihl ihr => exact ihl.binary ihr h hl loc
  | ofOperands e ih => exact ih.ofOperands
  | ternary condition question yes colon no ihc ihy ihn => exact ihc.ternary ihy ihn question colon
  | ofConditional e ih => exact ih.ofConditional
  | assign target h loc source iht ihs => exact iht.assign ihs h loc
  | ofAssignment e ih => exact ih.ofAssignment
  | comma first loc second ihf ihs => exact ihf.comma ihs loc

end Term

end MiniC
