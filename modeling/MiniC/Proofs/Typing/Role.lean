import Mathlib.Data.List.Forall2
import MiniC.Proofs.Run

/-!
# The operands that a program finds on the stack

Of an operand on the stack a construct asks no more than its `Role` : that it is an expression, or a
variable that waits for its initializer, or nothing, as of a statement. `Rule.consumes` are the
operands that a rule takes off the stack and `Rule.produces` what it puts back, both of the latest
first; `Goal.consumes` and `Goal.produces` say the same of a goal that is met.

The goals that take the place of another fit in with the stack as it does (`Goal.behind?_goals`), so
every event of a run finds operands of the roles that its rule asks for, also when the run ends in
an error (`Goal.run_orderly`).
-/

namespace MiniC

/-- What is asked of an operand. -/
inductive Role where
  /-- Nothing : it may be a statement. -/
  | construct
  | expression
  /-- It is a variable in front of its initializer. -/
  | target
deriving DecidableEq, Repr

namespace Role

/-- Whether an operand of the first role can stand for one of the second. -/
def serves (r s : Role) : Bool := r = s || (r = expression && s = construct)

/-- The roles that are left when the roles `wanted` are taken off the stack, if those on top can
stand for them. -/
def pop? : List Role → List Role → Option (List Role)
  | [], found => some found
  | _ :: _, [] => none
  | s :: wanted, r :: found => if r.serves s then pop? wanted found else none

/-- The operands of the first roles can stand for those of the second. -/
def Serve (found wanted : List Role) : Prop := List.Forall₂ (fun r s => r.serves s) found wanted

variable {r s u : Role} {found found' front wanted rest : List Role}

theorem serves_refl (r : Role) : r.serves r := by
  cases r <;> rfl

theorem serves_trans (h : r.serves s) (h' : s.serves u) : r.serves u := by
  revert h h'
  cases r <;> cases s <;> cases u <;> decide

theorem serve_refl : ∀ roles : List Role, Serve roles roles
  | [] => .nil
  | r :: roles => .cons (serves_refl r) (serve_refl roles)

theorem Serve.trans (h : Serve found' found) (h' : Serve found wanted) : Serve found' wanted := by
  induction h generalizing wanted with
  | nil => exact h'
  | cons hr _ ih =>
    cases h' with
    | cons hs h' => exact .cons (serves_trans hr hs) (ih h')

theorem Serve.append (h : Serve found wanted) (more : List Role) :
    Serve (found ++ more) (wanted ++ more) := by
  induction h with
  | nil => exact serve_refl more
  | cons hr _ ih => exact .cons hr ih

theorem Serve.prepend (h : Serve found wanted) : ∀ front : List Role,
    Serve (front ++ found) (front ++ wanted)
  | [] => h
  | r :: front => .cons (serves_refl r) (h.prepend front)

/-- What is taken off the stack stood on top of it. -/
theorem exists_of_pop? (h : pop? wanted found = some rest) :
    ∃ front, found = front ++ rest ∧ Serve front wanted := by
  induction wanted generalizing found with
  | nil => exact ⟨[], Option.some.inj h, .nil⟩
  | cons s wanted ih =>
    cases found with
    | nil => cases h
    | cons r found =>
      rw [pop?] at h
      split at h
      · next hr =>
        obtain ⟨front, rfl, hf⟩ := ih h
        exact ⟨r :: front, rfl, .cons hr hf⟩
      · cases h

theorem pop?_of_serve (h : Serve found wanted) (rest : List Role) :
    pop? wanted (found ++ rest) = some rest := by
  induction h with
  | nil => rfl
  | cons hr _ ih => rwa [List.cons_append, pop?, if_pos hr]

theorem Serve.exists_append (h : Serve found (front ++ rest)) :
    ∃ front' rest', found = front' ++ rest' ∧ Serve front' front ∧ Serve rest' rest :=
  ⟨found.take front.length, found.drop front.length, (List.take_append_drop ..).symm,
    List.forall₂_take_append _ _ _ h, List.forall₂_drop_append _ _ _ h⟩

end Role

open Role

/-- The roles of the operands that a rule combines. -/
def Rule.consumes : Rule → List Role
  | unary _ | postfixed _ => [.expression]
  | binary _ | assign _ | comma => [.expression, .expression]
  | ternary => [.expression, .expression, .expression]
  | initDeclarator _ => [.expression, .target]
  | functionDefinition _ _ | returned true => [.construct]
  | sequence | ifThen | whileLoop => [.construct, .construct]
  | ifElse => [.construct, .construct, .construct]
  | forLoop => [.construct, .construct, .construct, .construct]
  | openScope | closeScope | typeSpecifier _ | functionDeclarator _ _ | parameter _ _
  | declTarget _ | declarator _ | declaration | identifier _ | literal _ | emptyStatement
  | emptyBlock | returned false => []

/-- The role of the operand that a rule leaves, if it leaves one. -/
def Rule.produces : Rule → List Role
  | openScope | closeScope | typeSpecifier _ | functionDeclarator _ _ | parameter _ _
  | declaration => []
  | declTarget _ => [.target]
  | initDeclarator _ | declarator _ | identifier _ | literal _ | unary _ | postfixed _
  | binary _ | assign _ | ternary | comma => [.expression]
  | functionDefinition _ _ | emptyStatement | emptyBlock | sequence | ifThen | ifElse | whileLoop
  | forLoop | returned _ => [.construct]

/-- The goal that is met by nothing but the event. -/
def Event.goal (e : Event) : Goal := .emit e.rule e.location

namespace Goal

/-- The roles of the operands that a goal finds its construct begun with. -/
def consumes : Goal → List Role
  | emit rule _ => rule.consumes
  | sign _ _ rule => rule.elim [] Rule.consumes
  | externals joined | items joined => if joined then [.construct] else []
  | moreDeclarators | moreExpressions | moreAssignment | moreConditional | moreOperands _
  | morePostfixed => [.expression]
  | elseBranch _ => [.construct, .construct]
  | external | function _ | parameters | parameter | parameterName _ | moreParameters
  | declaration | declarator | initializer _ _ | item | statement | returnValue _ | simple
  | increment | expression | assignment | conditional | operands _ | unary | primary => []

/-- The role of the operand that a goal leaves in their place, if it leaves one. -/
def produces : Goal → List Role
  | emit rule _ => rule.produces
  | sign _ _ rule => rule.elim [] Rule.produces
  | parameters | parameter | parameterName _ | moreParameters => []
  | externals _ | items _ | elseBranch _ | external | function _ | declaration | item | statement
  | returnValue _ | simple | increment => [.construct]
  | moreDeclarators | moreExpressions | moreAssignment | moreConditional | moreOperands _
  | morePostfixed | declarator | initializer _ _ | expression | assignment | conditional
  | operands _ | unary | primary => [.expression]

/-- The roles of the operands behind the goals, if each goal finds the ones it combines. -/
def behind? : List Goal → List Role → Option (List Role)
  | [], found => some found
  | goal :: goals, found =>
    (pop? goal.consumes found).bind fun rest => behind? goals (goal.produces ++ rest)

variable {goal : Goal} {goals new : List Goal} {ts : TokenList} {found found' left : List Role}

theorem behind?_cons (h : behind? (goal :: goals) found = some left) :
    ∃ front rest, found = front ++ rest ∧ Serve front goal.consumes ∧
      behind? goals (goal.produces ++ rest) = some left := by
  obtain ⟨rest, hr, hl⟩ := Option.bind_eq_some_iff.1 h
  obtain ⟨front, rfl, hf⟩ := exists_of_pop? hr
  exact ⟨front, rest, rfl, hf, hl⟩

theorem behind?_of_serve {front rest : List Role} (hf : Serve front goal.consumes)
    (h : behind? goals (goal.produces ++ rest) = some left) :
    behind? (goal :: goals) (front ++ rest) = some left := by
  rw [behind?, pop?_of_serve hf]
  exact h

theorem behind?_append (new goals : List Goal) (found : List Role) :
    behind? (new ++ goals) found = (behind? new found).bind (behind? goals) := by
  induction new generalizing found with
  | nil => rfl
  | cons goal new ih =>
    rw [List.cons_append, behind?, behind?, Option.bind_assoc]
    simp only [ih]

/-- Goals met above other operands leave those as they are. -/
theorem behind?_frame (h : behind? goals found = some left) (more : List Role) :
    behind? goals (found ++ more) = some (left ++ more) := by
  induction goals generalizing found with
  | nil =>
    obtain rfl := Option.some.inj h
    rfl
  | cons goal goals ih =>
    obtain ⟨front, rest, rfl, hf, hl⟩ := behind?_cons h
    have hm := ih hl
    rw [List.append_assoc] at hm ⊢
    exact behind?_of_serve hf hm

/-- Operands that can stand for others do so for all that is made of them. -/
theorem behind?_of_found (h : behind? goals found = some left) (hs : Serve found' found) :
    ∃ left', behind? goals found' = some left' ∧ Serve left' left := by
  induction goals generalizing found found' with
  | nil =>
    obtain rfl := Option.some.inj h
    exact ⟨found', rfl, hs⟩
  | cons goal goals ih =>
    obtain ⟨front, rest, rfl, hf, hl⟩ := behind?_cons h
    obtain ⟨front', rest', rfl, hf', hr⟩ := hs.exists_append
    obtain ⟨left', hl', hleft⟩ := ih hl (hr.prepend goal.produces)
    exact ⟨left', behind?_of_serve (hf'.trans hf) hl', hleft⟩

/-- The goals in the place of another find what it does, and leave what can stand for its own. Only
the start of a program does not, which is met by nothing at all in front of an empty text. -/
theorem behind?_goals (hg : goal ≠ externals false) (h : (goal.action ts).goals? = some new) :
    (∃ left, behind? new goal.consumes = some left ∧ Serve left goal.produces) ∧
      externals false ∉ new := by
  revert h
  cases goal with
  | operands level | moreOperands level =>
    cases level <;> simp only [action] <;> (repeat' split) <;> intro h <;> cases h <;>
      exact ⟨⟨_, rfl, .cons rfl .nil⟩, by simp [operandsBelow, Precedence.tighter?]⟩
  | externals joined | items joined =>
    cases joined <;> simp only [action, Bool.false_eq_true, if_false, if_true] <;>
      (repeat' split) <;> intro h <;> cases h <;>
      first
      | exact absurd rfl hg
      | exact ⟨⟨_, rfl, .cons rfl .nil⟩, by simp [joinedBy]⟩
  | sign p context rule =>
    simp only [action]
    (repeat' split) <;> intro h <;> cases h
    cases rule with
    | none => exact ⟨⟨_, rfl, .nil⟩, by simp⟩
    | some r =>
      have hb (loc : Location) : behind? [emit r loc] (r.consumes ++ []) =
          some (r.produces ++ []) := behind?_of_serve (serve_refl _) rfl
      simp only [List.append_nil] at hb
      exact ⟨⟨_, hb _, serve_refl _⟩, by simp⟩
  | _ =>
    simp only [action, externalAction, statementAction, primaryAction]
    (repeat' split) <;> intro h <;> cases h <;>
      first
      | exact ⟨⟨_, rfl, .cons rfl .nil⟩, by simp⟩
      | exact ⟨⟨_, rfl, .nil⟩, by simp⟩

/-- A stack with other goals in the place of the first one finds its operands as well. -/
theorem behind?_replace (hg : externals false ∉ goal :: goals)
    (h : (goal.action ts).goals? = some new) (hb : (behind? (goal :: goals) found).isSome) :
    externals false ∉ new ++ goals ∧ (behind? (new ++ goals) found).isSome := by
  obtain ⟨hne, hg⟩ := List.ne_and_not_mem_of_not_mem_cons hg
  obtain ⟨⟨made, hnew, hmade⟩, hmem⟩ := behind?_goals (Ne.symm hne) h
  refine ⟨fun hm => (List.mem_append.1 hm).elim hmem hg, ?_⟩
  obtain ⟨left, hl⟩ := Option.isSome_iff_exists.1 hb
  obtain ⟨front, rest, rfl, hf, hl⟩ := behind?_cons hl
  obtain ⟨made', hnew', hmade'⟩ := behind?_of_found hnew hf
  obtain ⟨left', hl', -⟩ := behind?_of_found hl ((hmade'.trans hmade).append rest)
  rw [behind?_append, behind?_frame hnew', Option.bind_some, hl']
  rfl

/-- Every event of a run finds operands of the roles that its rule combines. -/
theorem run_orderly (hg : externals false ∉ goals) (h : (behind? goals found).isSome) :
    (behind? ((run goals ts).events.map Event.goal) found).isSome := by
  fun_induction run goals ts generalizing found with
  | case1 ts => rfl
  | case2 ts goal goals event h' r =>
    rename_i ih
    obtain rfl := eq_emit h'
    obtain ⟨left, hl⟩ := Option.isSome_iff_exists.1 h
    obtain ⟨front, rest, rfl, hf, hl⟩ := behind?_cons hl
    have hr := ih (List.not_mem_of_not_mem_cons hg) (Option.isSome_iff_exists.2 ⟨left, hl⟩)
    obtain ⟨left', hl'⟩ := Option.isSome_iff_exists.1 hr
    exact Option.isSome_iff_exists.2 ⟨left', behind?_of_serve hf hl'⟩
  | case3 ts goal goals new h' ih =>
    obtain ⟨hg, h⟩ := behind?_replace hg (by rw [h']; rfl) h
    exact ih hg h
  | case4 ts goal goals new rest h' ih =>
    obtain ⟨hg, h⟩ := behind?_replace hg (by rw [h']; rfl) h
    exact ih hg h
  | case5 ts goal goals what h' => rfl

end Goal

/-- Every event of a program finds operands of the roles that its rule combines. -/
theorem TokenList.parse_orderly (ts : TokenList) :
    (Goal.behind? (ts.parse.events.map Event.goal) []).isSome := by
  by_cases h : ts.tokens = []
  · obtain ⟨tokens, stop⟩ := ts
    obtain rfl : tokens = [] := h
    rw [TokenList.parse_nil]
    rfl
  · have hr : Goal.run [.externals false] ts = Goal.run [.external, .externals true] ts :=
      Goal.run_replace (Goal.action_externals h) []
    rw [parse, hr]
    exact Goal.run_orderly (by simp) rfl

/-- Every event of a source finds operands of the roles that its rule combines. -/
theorem parse_orderly (source : String) :
    (Goal.behind? ((parse source).events.map Event.goal) []).isSome := by
  unfold parse
  split
  · exact TokenList.parse_orderly _
  · rfl

end MiniC
