import Mathlib
import MiniC.Proofs.Descent.Declaration
import MiniC.Proofs.Descent.Depth
import MiniC.Proofs.Descent.Expression
import MiniC.Proofs.Descent.Statement

/-!
# Progress of the parser

A call is deep enough if `Method.depth` says so, which is linear in the number of tokens left over.
Then it performs the run of its method, by induction on the depth (`performs_call`). How it ends
says `Ends` : it never leaves the entries, goes behind a token if its method `consumes` one, and
halts only at a syntax error, at the entry where it stops. A program parsed by descent tells the
events of `TokenList.parse` (`TokenList.descend_eq`).
-/

namespace MiniC

namespace Descent

/-- How deep the calls behind the first `n` tokens may have to be nested. The calls that a method
makes there are of a lighter one, or find fewer tokens. -/
def Method.depth (method : Method) (ts : TokenList) (n : Nat) : Nat :=
  14 * (ts.tokens.length - n) + method.weight + 1

/-- A call that is deep enough performs the run of its method. -/
theorem performs_call {ts : TokenList} {p : Progress} {method : Method} {depth : Nat}
    (hp : InRange ts p) (hd : method.depth ts p.position ≤ depth) :
    Performs ts p (call ts depth method) (method.run ts p.position) := by
  induction depth generalizing p method with
  | zero => cases hd
  | succ depth ih =>
    rw [Method.depth] at hd
    have h : CallsPerform ts (call ts depth) p.position method := by
      refine ⟨fun hq hpos hw => ih hq ?_, fun {q m} hq hlt => ih hq ?_⟩
      · rw [Method.depth, hpos]
        omega
      · have hw := m.weight_lt
        have hle := hq.position
        rw [Method.depth]
        omega
    cases method with
    | program => exact performs_program h hp
    | external => exact performs_external h hp
    | function => exact performs_function h hp
    | named => exact performs_named h hp
    | parameters => exact performs_parameters h hp
    | parameter => exact performs_parameter h hp
    | declaration => exact performs_declaration h hp
    | moreDeclarators => exact performs_moreDeclarators h hp
    | declarator => exact performs_declarator h hp
    | items => exact performs_items h hp
    | item => exact performs_item h hp
    | statement => exact performs_statement h hp
    | simple => exact performs_simple h hp
    | returned => exact performs_returned h hp
    | ifThen => exact performs_ifThen h hp
    | whileLoop => exact performs_whileLoop h hp
    | forLoop => exact performs_forLoop h hp
    | expression => exact performs_expression h hp
    | moreExpressions => exact performs_moreExpressions h hp
    | assignment => exact performs_assignment h hp
    | conditional => exact performs_conditional h hp
    | operands => exact performs_operands h hp
    | moreOperands => exact performs_moreOperands h hp
    | unary => exact performs_unary h hp
    | postfixed => exact performs_postfixed h hp
    | morePostfixed => exact performs_morePostfixed h hp
    | primary => exact performs_primary h hp

variable {ts : TokenList} {p : Progress}

namespace Method

/-- Whether a call that succeeds goes behind a token : all but those of the loops, and of the
parameters of a function, which may be none. -/
def consumes : Method → Bool
  | program _ | parameters | moreDeclarators | items _ | moreExpressions | moreOperands _
  | morePostfixed => false
  | external | function | named _ | parameter | declaration | declarator | item | statement
  | simple | returned | ifThen | whileLoop | forLoop | expression | assignment | conditional
  | operands _ | unary | postfixed | primary => true

theorem any_reads_goals {method : Method} (h : method.consumes = true) (last : Location) :
    (method.goals last).any Goal.reads = true := by
  cases method <;> first | rfl | cases h

/-- The run of a method that consumes leaves fewer tokens than it finds. -/
theorem length_lt_of_run {method : Method} {n : Nat} {us : TokenList}
    (h : (method.run ts n).result = .ok us) (hm : method.consumes = true) :
    us.tokens.length < (ts.drop n).tokens.length := by
  rw [run.eq_def] at h
  split at h
  next ht =>
    have hl := Goal.length_lt_of_run h rfl
    rw [TokenList.length_drop] at hl ⊢
    omega
  next => exact Goal.length_lt_of_run h (any_reads_goals hm _)

end Method

/-- How a call of a method that begins behind the progress `p` ends. -/
structure Ends (ts : TokenList) (method : Method) (p : Progress) (answer : Except Halt Unit)
    (q : Progress) : Prop where
  /-- The call ends in the same way at every depth that is great enough. -/
  outcome : ∀ depth, method.depth ts p.position ≤ depth →
    outcome (call ts depth method) p = (answer, q)
  inRange : InRange ts q
  kept : p.position ≤ q.position
  consumed : answer = .ok () → method.consumes = true → p.position < q.position
  /-- A call halts at a syntax error only, which is that of the entry where it stops. -/
  halted : ∀ halt, answer = .error halt → ∃ e what, ts.entries[q.position]? = some e ∧
    halt = .syntaxError ⟨.unexpected what e.kind, e.location⟩

/-- A call that begins at an entry ends. -/
theorem exists_ends (hp : InRange ts p) (method : Method) :
    ∃ answer q, Ends ts method p answer q := by
  obtain ⟨answer, q, ho, hq, hle, -, hend⟩ := performs_call hp (Nat.le_refl _)
  refine ⟨answer, q, fun depth hd => ?_, hq, hle, fun hok hm => ?_, fun halt hh => ?_⟩
  · rw [outcome_call_of_le hd, ho]
    rw [ho]
    rintro rfl
    obtain ⟨what, hhalt⟩ := hend.halt_of_error
    cases hhalt
  · subst hok
    have hl := Method.length_lt_of_run hend.result_of_ok hm
    rw [TokenList.length_drop, TokenList.length_drop] at hl
    omega
  · subst hh
    obtain ⟨what, rfl⟩ := hend.halt_of_error
    exact ⟨_, what, TokenList.entries_of_le hq.position, rfl⟩

theorem inRange_start (ts : TokenList) : InRange ts .start := ⟨Nat.zero_le _, nofun⟩

end Descent

/-- A program parsed by descent tells the events of `TokenList.parse`. -/
theorem TokenList.descend_eq {ts : TokenList} {depth : Nat}
    (hd : Descent.Method.depth (.program false) ts 0 ≤ depth) : ts.descend depth = ts.parse := by
  obtain ⟨answer, q, ho, -, -, hev, hend⟩ := Descent.performs_call (Descent.inRange_start ts) hd
  have hrun : (Descent.Method.program false).run ts 0 = Goal.run [.externals false] ts := rfl
  rw [show Progress.start.position = 0 from rfl, hrun] at hev hend
  have hfail : Descent.failure? answer = ts.parse.failure := by
    rw [parse]
    cases hr : (Goal.run [.externals false] ts).result with
    | ok | error =>
      rw [hr] at hend
      rw [hend.1]
      rfl
  rw [descend, ho]
  exact congr (congrArg EventStream.mk hev) hfail

namespace Descent

/-- A program is parsed by descent with the events of its parse. A call that begins at an entry
ends, and in the same way however deep calls may be nested beyond its own depth : it stays among the
entries, goes behind a token if it succeeds and its method consumes, and halts only at a syntax
error, that of the entry where it stops. -/
theorem calls_end (ts : TokenList) :
    (∀ depth, Method.depth (.program false) ts 0 ≤ depth → ts.descend depth = ts.parse) ∧
    ∀ method p, InRange ts p → ∃ answer q, Ends ts method p answer q :=
  ⟨fun _ => TokenList.descend_eq, fun method _ hp => exists_ends hp method⟩

/-- The second declaration of a text, which is incomplete. -/
theorem calls_end_of_declaration : ∃ ts p, tokenize "int a;\nint b" = .ok ts ∧ p.position = 3 ∧
    InRange ts p ∧ ts.descend 74 = ts.parse ∧ ∃ answer q, Ends ts .declaration p answer q := by
  have ht : tokenize "int a;\nint b" = .ok ⟨[⟨.type .int, ⟨1, 1⟩⟩, ⟨.name "a", ⟨1, 5⟩⟩,
      ⟨.punct .semicolon, ⟨1, 6⟩⟩, ⟨.type .int, ⟨2, 1⟩⟩, ⟨.name "b", ⟨2, 5⟩⟩], ⟨2, 6⟩⟩ := by cbv
  refine ⟨_, ⟨3, [2, 1, 0], []⟩, ht, rfl, ⟨by decide, by decide⟩, ?_⟩
  exact ⟨(calls_end _).1 74 (by decide), (calls_end _).2 .declaration _ ⟨by decide, by decide⟩⟩

end Descent

end MiniC
