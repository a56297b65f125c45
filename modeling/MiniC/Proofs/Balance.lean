import MiniC.Proofs.After
import MiniC.Proofs.Arity
import MiniC.Proofs.Run

/-!
# Every part of a program finishes one subtree

A goal that is met takes some subtrees off the stack and puts one or none back : a statement leaves
one, the rest of a sequence makes one of the one before it. `Goal.Turns goals n k` says that the
goals, met one after the other, find `n` subtrees and leave `k`.

The goals that take the place of another never change that (`Goal.turns_goals`), so the events of a
run never ask for a subtree that is not there, also when the run ends in an error
(`Goal.run_balanced`). Only an empty program leaves nothing.
-/

namespace MiniC

namespace Goal

/-- The number of subtrees a goal finds its construct begun with. -/
def takes : Goal → Nat
  | emit rule _ => rule.arity
  | sign _ _ rule => rule.elim 0 Rule.arity
  | externals joined | items joined => joined.toNat
  | moreDeclarators | moreExpressions | moreAssignment | moreConditional | moreOperands _
  | morePostfixed => 1
  | elseBranch _ => 2
  | external | function _ | parameters | parameter | parameterName _ | moreParameters
  | declaration | declarator | initializer _ _ | item | statement | returnValue _ | simple
  | increment | expression | assignment | conditional | operands _ | unary | primary => 0

/-- The number of subtrees a goal leaves in their place. -/
def leaves : Goal → Nat
  | emit rule _ => rule.builds.toNat
  | sign _ _ rule => rule.elim 0 (·.builds.toNat)
  | parameters | parameter | parameterName _ | moreParameters => 0
  | externals _ | items _ | moreDeclarators | moreExpressions | moreAssignment
  | moreConditional | moreOperands _ | morePostfixed | elseBranch _ | external | function _
  | declaration | declarator | initializer _ _ | item | statement | returnValue _ | simple
  | increment | expression | assignment | conditional | operands _ | unary | primary => 1

/-- The goals, met one after the other, find `n` subtrees and leave `k`. -/
def Turns : List Goal → Nat → Nat → Prop
  | [], n, k => n = k
  | goal :: goals, n, k => ∃ m, n = m + goal.takes ∧ Turns goals (m + goal.leaves) k

variable {goal : Goal} {goals new : List Goal} {ts : TokenList} {n k : Nat}

/-- Goals met below other subtrees leave those as they are. -/
theorem turns_append {m : Nat} (d : Nat) (h : Turns new n m) (ht : Turns goals (m + d) k) :
    Turns (new ++ goals) (n + d) k := by
  induction new generalizing n with
  | nil =>
    obtain rfl := h
    exact ht
  | cons goal new ih =>
    obtain ⟨l, rfl, h⟩ := h
    refine ⟨l + d, Nat.add_right_comm l goal.takes d, ?_⟩
    rw [Nat.add_right_comm]
    exact ih h

/-- The goals in the place of another take and leave what it does. Only the start of a program does
not, which is met by nothing at all in front of an empty text, and it takes the place of no goal. -/
theorem turns_goals (hg : goal ≠ externals false) (h : (goal.action ts).goals? = some new) :
    Turns new goal.takes goal.leaves ∧ externals false ∉ new := by
  revert h
  cases goal with
  | operands level | moreOperands level =>
    cases level <;> simp only [action] <;> (repeat' split) <;> intro h <;> cases h <;>
      simp [Turns, takes, leaves, operandsBelow, Precedence.tighter?, Rule.arity, Rule.builds]
  | externals joined | items joined =>
    cases joined <;> simp only [action] <;> (repeat' split) <;> intro h <;> cases h <;>
      simp_all [Turns, takes, leaves, joinedBy, Rule.arity, Rule.builds]
  | sign p context rule =>
    simp only [action]
    (repeat' split) <;> intro h <;> cases h
    cases rule <;> simp [Turns, takes, leaves]
  | _ =>
    simp only [action, externalAction, statementAction, primaryAction]
    (repeat' split) <;> intro h <;> cases h <;>
      simp [Turns, takes, leaves, Rule.arity, Rule.builds]

/-- A stack with other goals in the place of the first one leaves as much. -/
theorem turns_replace (hg : externals false ∉ goal :: goals)
    (h : (goal.action ts).goals? = some new) (ht : Turns (goal :: goals) n k) :
    externals false ∉ new ++ goals ∧ Turns (new ++ goals) n k := by
  obtain ⟨hne, hg⟩ := List.ne_and_not_mem_of_not_mem_cons hg
  obtain ⟨hnew, hmem⟩ := turns_goals (Ne.symm hne) h
  obtain ⟨m, rfl, ht⟩ := ht
  refine ⟨fun hm => (List.mem_append.1 hm).elim hmem hg, ?_⟩
  rw [Nat.add_comm] at ht ⊢
  exact turns_append m hnew ht

/-- The events of a run find the subtrees they combine. A run that succeeds leaves as many as its
goals do. -/
theorem run_balanced {a : Analyzer} (ha : a.Paired) (hg : externals false ∉ goals)
    (ht : Turns goals a.stackDepth k) :
    ∃ b, a.after (run goals ts).events = .ok b ∧ b.Paired ∧
      ((run goals ts).result.isOk → b.stackDepth = k) := by
  fun_induction run goals ts generalizing a with
  | case1 ts => exact ⟨a, rfl, ha, fun _ => ht⟩
  | case2 ts goal goals event h r =>
    rename_i ih
    obtain rfl := eq_emit h
    obtain ⟨m, hm, ht⟩ := ht
    have hn : event.rule.arity ≤ a.stackDepth := by
      rw [hm]
      exact Nat.le_add_left _ _
    obtain ⟨b, hb, hp, hd⟩ := Analyzer.apply_leaves ha hn
    rw [Analyzer.after_cons_of_ok hb]
    refine ih hp (List.not_mem_of_not_mem_cons hg) ?_
    rw [hd, Rule.depthAfter, hm]
    simpa [takes, leaves] using ht
  | case3 ts goal goals new h ih =>
    have hn : (goal.action ts).goals? = some new := by rw [h]; rfl
    obtain ⟨hg, ht⟩ := turns_replace hg hn ht
    exact ih ha hg ht
  | case4 ts goal goals new rest h ih =>
    have hn : (goal.action ts).goals? = some new := by rw [h]; rfl
    obtain ⟨hg, ht⟩ := turns_replace hg hn ht
    exact ih ha hg ht
  | case5 ts goal goals what h => exact ⟨a, rfl, ha, by simp [Except.isOk, Except.toBool]⟩

end Goal

end MiniC
