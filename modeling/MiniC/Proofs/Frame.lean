import Mathlib.Data.List.Basic
import MiniC.Proofs.Balance
import MiniC.Proofs.Grammar.Term

/-!
# What stands below is not looked at

`Analyzer.onto a trees operands` is the state `a` with other subtrees, and what is known of them,
below its own. An event that is applied to `a` does the same there, and leaves what is below
(`Analyzer.apply_onto`), and so does a list of events (`Analyzer.after_onto`).

The events of an expression need nothing below them : they can be applied to any state, and put one
subtree on top (`Term.leaves_after`).
-/

namespace MiniC

namespace Analyzer

/-- The state with other subtrees below its own. -/
def onto (a : Analyzer) (trees : List Tree) (operands : List Operand) : Analyzer :=
  { a with trees := ⟨a.trees.trees ++ trees⟩, operands := a.operands ++ operands }

variable {a b : Analyzer} {event : Event} {events : List Event} {line : Nat}
  (trees : List Tree) (operands : List Operand)

/-! ## Steps that leave the stacks alone -/

@[simp] theorem symbols_onto : (a.onto trees operands).symbols = a.symbols := rfl

@[simp] theorem pending_onto : (a.onto trees operands).pending = a.pending := rfl

@[simp] theorem operands_onto : (a.onto trees operands).operands = a.operands ++ operands := rfl

@[simp] theorem declaredType_onto : (a.onto trees operands).declaredType = a.declaredType := rfl

theorem report_onto (a : Analyzer) (line : Nat) (problem : Problem) :
    (a.onto trees operands).report line problem = (a.report line problem).onto trees operands := rfl

theorem reportIf_onto (a : Analyzer) (condition : Bool) (line : Nat) (problem : Problem) :
    (a.onto trees operands).reportIf condition line problem =
      (a.reportIf condition line problem).onto trees operands := by
  cases condition <;> rfl

theorem warnNarrowing_onto (a : Analyzer) (target : DataType) (source : Option DataType)
    (line : Nat) : (a.onto trees operands).warnNarrowing target source line =
      (a.warnNarrowing target source line).onto trees operands := by
  cases source with
  | none => rfl
  | some source => exact reportIf_onto trees operands a _ _ _

theorem declare_onto (a : Analyzer) (name : String) (kind : SymbolKind) (type : DataType)
    (line : Nat) : (a.onto trees operands).declare name kind type line =
      ((a.declare name kind type line).1,
        (a.declare name kind type line).2.onto trees operands) := by
  simp only [declare, symbols_onto]
  split <;> rfl

theorem compoundSource_onto (a : Analyzer) (op : BinaryOp) (lhs rhs : Operand) (line : Nat) :
    (a.onto trees operands).compoundSource op lhs rhs line =
      ((a.compoundSource op lhs rhs line).1,
        (a.compoundSource op lhs rhs line).2.onto trees operands) := by
  unfold compoundSource
  (repeat' split) <;> rfl

theorem functionDeclarator_onto (a : Analyzer) (name : String) (typed : Bool) (line : Nat) :
    (a.onto trees operands).functionDeclarator name typed line =
      (a.functionDeclarator name typed line).onto trees operands := by
  simp only [functionDeclarator, declaredType_onto, reportIf_onto, declare_onto]
  rfl

theorem declTarget_onto (a : Analyzer) (name : String) (line : Nat) :
    (a.onto trees operands).declTarget name line =
      (a.declTarget name line).onto trees operands := by
  simp only [declTarget_eq, declaredType_onto, declare_onto]
  rfl

theorem declarator_onto (a : Analyzer) (name : String) (line : Nat) :
    (a.onto trees operands).declarator name line =
      (a.declarator name line).onto trees operands := by
  simp only [declarator_eq, declaredType_onto, declare_onto]
  rfl

theorem identifier_onto (a : Analyzer) (name : String) (line : Nat) :
    (a.onto trees operands).identifier name line =
      (a.identifier name line).onto trees operands := by
  have hs : { a.onto trees operands with symbols := (a.symbols.resolve name line).2 } =
      { a with symbols := (a.symbols.resolve name line).2 : Analyzer }.onto trees operands := rfl
  simp only [identifier_eq, symbols_onto, hs, reportIf_onto]
  rfl

/-! ## Steps on the stacks -/

theorem le_operands_onto {count : Nat} (h : count ≤ a.operands.length) :
    count ≤ (a.onto trees operands).operands.length := by
  rw [operands_onto, List.length_append]
  exact Nat.le_add_right_of_le h

theorem le_stackDepth_onto {count : Nat} (h : count ≤ a.stackDepth) :
    count ≤ (a.onto trees operands).stackDepth := by
  rw [stackDepth_eq] at h ⊢
  rw [onto, List.length_append]
  exact Nat.le_add_right_of_le h

theorem node_onto {label : String} {arity : Nat} {operand : Operand}
    (h : a.node label arity operand = .ok b) :
    (a.onto trees operands).node label arity operand = .ok (b.onto trees operands) := by
  obtain ⟨ho, ht, rfl⟩ := node_eq_ok_iff.1 h
  refine node_eq_ok_iff.2 ⟨le_operands_onto trees operands ho, le_stackDepth_onto trees operands ht,
    ?_⟩
  rw [stackDepth_eq] at ht
  simp only [onto, List.take_append_of_le_length ht, List.drop_append_of_le_length ht,
    List.drop_append_of_le_length ho, List.cons_append]

theorem discard_onto {label : String} {count : Nat} (hc : count ≤ a.operands.length)
    (h : a.discard label count = .ok b) :
    (a.onto trees operands).discard label count = .ok (b.onto trees operands) := by
  obtain ⟨ht, rfl⟩ := discard_eq_ok_iff.1 h
  refine discard_eq_ok_iff.2 ⟨le_stackDepth_onto trees operands ht, ?_⟩
  rw [stackDepth_eq] at ht
  simp only [onto, List.drop_append_of_le_length ht, List.drop_append_of_le_length hc]

theorem store_onto {label : String} {id : SymbolId} {type : DataType} {source : Operand}
    (h : a.store label id type source line = .ok b) :
    (a.onto trees operands).store label id type source line = .ok (b.onto trees operands) := by
  simp only [store, warnNarrowing_onto]
  exact node_onto trees operands h

theorem initDeclarator_onto (h : a.initDeclarator line = .ok b) :
    (a.onto trees operands).initDeclarator line = .ok (b.onto trees operands) := by
  unfold initDeclarator at h
  split at h
  · next ho =>
    simp only [initDeclarator, operands_onto, ho, pending_onto, List.cons_append]
    -- the state that goes on is the same with its operands put together again
    simp only [← List.cons_append, ← ho]
    dsimp only at h
    split at h
    · exact node_onto trees operands h
    · exact node_onto trees operands h
    · exact store_onto trees operands h
  · cases h

theorem binary_onto {op : BinaryOp} (h : a.binary op line = .ok b) :
    (a.onto trees operands).binary op line = .ok (b.onto trees operands) := by
  unfold binary at h
  split at h
  · next rhs lhs rest ho =>
    have hlen : 2 ≤ a.operands.length := by simp [ho]
    simp only [binary, operands_onto, ho, List.cons_append]
    split at h
    · next hz =>
      obtain ⟨c, hd, hb⟩ := exists_of_bind_ok h
      obtain rfl := Except.ok.inj hb
      have hd := discard_onto (a := a.report line .divisionByZero) trees operands hlen hd
      rw [if_pos hz, report_onto, hd]
      rfl
    · next hz =>
      rw [if_neg hz]
      split at h
      · next l r _ =>
        exact discard_onto (a := a.report line (.invalidOperands l r)) trees operands
          (Nat.le_of_succ_le hlen) h
      · exact node_onto trees operands h
  · cases h

theorem assignTo_onto {op : AssignOp} {id : SymbolId} {source : Operand}
    (h : a.assignTo op id source line = .ok b) :
    (a.onto trees operands).assignTo op id source line = .ok (b.onto trees operands) := by
  unfold assignTo at h ⊢
  rw [symbols_onto]
  split at h
  · exact store_onto trees operands h
  · exact node_onto trees operands h

theorem assign_onto {op : AssignOp} (h : a.assign op line = .ok b) :
    (a.onto trees operands).assign op line = .ok (b.onto trees operands) := by
  unfold assign at h
  split at h
  · next ho =>
    simp only [assign, operands_onto, ho, List.cons_append]
    split at h
    · exact node_onto trees operands h
    · split at h
      · exact assignTo_onto trees operands h
      · rw [compoundSource_onto]
        exact assignTo_onto trees operands h
  · cases h

/-! ## One event, and a list of them -/

/-- An event that finds its subtrees does not look below them. -/
theorem apply_onto (h : a.apply event = .ok b) :
    (a.onto trees operands).apply event = .ok (b.onto trees operands) := by
  obtain ⟨rule, loc⟩ := event
  cases rule <;> dsimp only [apply] at h ⊢
  case openScope | closeScope | typeSpecifier | declaration | literal | emptyStatement
      | emptyBlock =>
    obtain rfl := Except.ok.inj h
    rfl
  case functionDeclarator =>
    obtain rfl := Except.ok.inj h
    exact congrArg Except.ok (functionDeclarator_onto ..)
  case parameter =>
    obtain rfl := Except.ok.inj h
    rw [declare_onto]
  case functionDefinition =>
    obtain ⟨c, hn, hb⟩ := exists_of_bind_ok h
    obtain rfl := Except.ok.inj hb
    rw [node_onto trees operands hn]
    rfl
  case declTarget =>
    obtain rfl := Except.ok.inj h
    exact congrArg Except.ok (declTarget_onto ..)
  case declarator =>
    obtain rfl := Except.ok.inj h
    exact congrArg Except.ok (declarator_onto ..)
  case identifier =>
    obtain rfl := Except.ok.inj h
    exact congrArg Except.ok (identifier_onto ..)
  case initDeclarator => exact initDeclarator_onto trees operands h
  case binary => exact binary_onto trees operands h
  case assign => exact assign_onto trees operands h
  case unary | postfixed | ternary | comma =>
    split at h
    · next ho =>
      simp only [operands_onto, ho, List.cons_append]
      exact node_onto trees operands h
    · cases h
  case sequence | ifThen | ifElse | whileLoop | forLoop => exact node_onto trees operands h
  case returned value =>
    cases value
    case false =>
      obtain rfl := Except.ok.inj h
      rfl
    case true => exact node_onto trees operands h

theorem after_onto (h : a.after events = .ok b) :
    (a.onto trees operands).after events = .ok (b.onto trees operands) := by
  induction events generalizing a with
  | nil =>
    obtain rfl := Except.ok.inj h
    rfl
  | cons event events ih =>
    obtain ⟨c, hc, hb⟩ := exists_of_after_cons h
    rw [after_cons_of_ok (apply_onto trees operands hc)]
    exact ih hb

/-! ## The depth of the stacks -/

theorem leaves_after_append {more : List Event} {n k : Nat} (h : Leaves (a.after events) n)
    (hm : ∀ b : Analyzer, b.Paired → Leaves (b.after more) (b.stackDepth + k)) :
    Leaves (a.after (events ++ more)) (n + k) := by
  obtain ⟨b, hb, hp, rfl⟩ := h
  rw [after_append_of_ok hb]
  exact hm b hp

theorem leaves_after_singleton (ha : a.Paired) (hn : event.rule.arity ≤ a.stackDepth) :
    Leaves (a.after [event]) (event.rule.depthAfter a.stackDepth) := by
  obtain ⟨b, hb, hl⟩ := apply_leaves ha hn
  exact ⟨b, after_cons_of_ok hb [], hl⟩

/-- An operator behind the events of its operands makes one subtree of theirs. -/
theorem leaves_after_snoc {n : Nat} (h : Leaves (a.after events) (n + event.rule.arity))
    (hb : event.rule.builds = true) : Leaves (a.after (events ++ [event])) (n + 1) := by
  obtain ⟨b, ha, hp, hd⟩ := h
  rw [after_append_of_ok ha]
  have hl := leaves_after_singleton hp (hd ▸ Nat.le_add_left ..)
  rwa [Rule.depthAfter, hd, Nat.add_sub_cancel, hb] at hl

end Analyzer

open Analyzer

/-- The events of an expression can be applied to any state, and put one subtree on top. -/
theorem Term.leaves_after {tier : Tier} (e : Term tier) {a : Analyzer} (ha : a.Paired) :
    Leaves (a.after e.events) (a.stackDepth + 1) := by
  induction e generalizing a with
  | literal | identifier => exact leaves_after_singleton ha (Nat.zero_le _)
  | parens left e right ih => exact ih ha
  | ofPrimary e ih | ofPostfixed e ih | ofBelow e ih | ofOperands e ih | ofConditional e ih
  | ofAssignment e ih => exact ih ha
  | postfixed e h loc ih | unary h loc e ih => exact leaves_after_snoc (ih ha) rfl
  | binary lhs h hl loc rhs ihl ihr | assign lhs h loc rhs ihl ihr | comma lhs loc rhs ihl ihr =>
    have hparts := leaves_after_append (ihl ha) fun _ => ihr
    exact leaves_after_snoc hparts rfl
  | ternary condition question yes colon no ihc ihy ihn =>
    have hparts := leaves_after_append (leaves_after_append (ihc ha) fun _ => ihy) fun _ => ihn
    exact leaves_after_snoc hparts rfl

end MiniC
