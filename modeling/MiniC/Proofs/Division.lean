import MiniC.Proofs.Atomicity
import MiniC.Proofs.Execution.Operand
import MiniC.Proofs.Outcome

/-!
# Which divisions by zero are reported

`Analyzer.Divides a rule lhs rhs` says that a rule is about to divide one integer operand by
another, or to take the remainder : a binary operator, or a compound assignment to a variable.

A divisor that is known to be zero is reported by every such rule, once, except by the binary `%`,
which reports nothing at all; and where no divisor is known to be zero nobody reports one
(`Analyzer.known_zero_divisor_reported`). The remainder that is not reported is a valid one of the
language, and is reported when the same operator assigns (`remainder_by_zero_unreported`).
-/

namespace MiniC

/-- The warning about a division by zero. -/
def Diagnostic.isDivisionByZero (d : Diagnostic) : Bool :=
  d.severity = .warning ∧ d.message = "division by zero is undefined"

namespace Rule

/-- Whether a rule divides its operands or takes the remainder. -/
def isDivision : Rule → Bool
  | binary .div | binary .mod | assign .div | assign .mod => true
  | _ => false

end Rule

namespace Analyzer

/-- The rule is about to divide the integer operands on top of the stack. The left one of an
assignment names a variable. -/
structure Divides (a : Analyzer) (rule : Rule) (lhs rhs : Operand) : Prop where
  isDivision : rule.isDivision = true
  operands : ∃ rest, a.operands = rhs :: lhs :: rest
  left : lhs.IsInteger
  right : rhs.IsInteger
  target : ∀ op, rule = .assign op → ∃ id, lhs.symbol = some id

/-- The diagnostics of `a` grow to those of `b`, and the warnings about a division by zero among the
new ones are `warnings`. -/
def Warns (a b : Analyzer) (warnings : List Diagnostic) : Prop :=
  ∃ more, b.diagnostics = a.diagnostics ++ more ∧ more.filter (·.isDivisionByZero) = warnings

variable {a b c : Analyzer} {lhs rhs o : Operand} {warnings : List Diagnostic} {line : Nat}

theorem warns_of_eq (h : b.diagnostics = a.diagnostics) : a.Warns b [] :=
  ⟨[], by rw [h, List.append_nil], rfl⟩

theorem warns_divisionByZero (a : Analyzer) (line : Nat) :
    a.Warns (a.report line .divisionByZero) [⟨line, .divisionByZero⟩] :=
  ⟨[⟨line, .divisionByZero⟩], rfl, rfl⟩

theorem Warns.append (h : a.Warns b warnings) (h' : b.Warns c []) : a.Warns c warnings := by
  obtain ⟨more, hb, hm⟩ := h
  obtain ⟨more', hc, hm'⟩ := h'
  exact ⟨more ++ more', by rw [hc, hb, List.append_assoc], by
    rw [List.filter_append, hm, hm', List.append_nil]⟩

/-- Only the diagnostics of the first state matter. -/
theorem Warns.of_eq (h : b.Warns c warnings) (hb : b.diagnostics = a.diagnostics) :
    a.Warns c warnings := by
  unfold Warns
  rwa [← hb]

/-- A warning about a conversion is none about a division. -/
theorem isDivisionByZero_narrowing (line : Nat) (source target : DataType) :
    (Diagnostic.mk line (.narrowing source target)).isDivisionByZero = false := by
  cases source <;> cases target <;> rfl

theorem warns_warnNarrowing (a : Analyzer) (target : DataType) (source : Option DataType)
    (line : Nat) : a.Warns (a.warnNarrowing target source line) [] := by
  cases source with
  | none => exact warns_of_eq rfl
  | some source =>
    cases hn : source.narrows target with
    | false => exact warns_of_eq (by simp [warnNarrowing, hn, reportIf])
    | true =>
      refine ⟨[⟨line, .narrowing source target⟩], by simp [warnNarrowing, hn, reportIf, report], ?_⟩
      rw [List.filter_singleton, isDivisionByZero_narrowing]
      rfl

theorem warns_node {label : String} {arity : Nat} (h : a.node label arity o = .ok b) :
    a.Warns b [] := by
  obtain ⟨trees, operands, rfl⟩ := exists_of_node h
  exact warns_of_eq rfl

theorem warns_store {label : String} {id : SymbolId} {type : DataType}
    (h : a.store label id type o line = .ok b) : a.Warns b [] :=
  (warns_warnNarrowing a type o.type line).append ((warns_node h).of_eq rfl)

theorem warns_assignTo {op : AssignOp} {id : SymbolId} (h : a.assignTo op id o line = .ok b) :
    a.Warns b [] := by
  unfold assignTo at h
  split at h
  · exact warns_store h
  · exact warns_node h

/-- Of a compound assignment to a variable, a known zero divisor is all that is reported beside a
conversion. -/
theorem warns_compound {op : AssignOp} {arithmetic : BinaryOp} {id : SymbolId}
    {rest : List Operand} (ho : a.operands = rhs :: lhs :: rest) (hl : lhs.IsInteger)
    (hr : rhs.IsInteger) (hid : lhs.symbol = some id) (hop : op.arithmetic? = some arithmetic)
    (hd : arithmetic = .div ∨ arithmetic = .mod) (h : a.assign op line = .ok b) :
    a.Warns b (if rhs.isZero then [⟨line, .divisionByZero⟩] else []) := by
  have hf : lhs.floatRemainder? rhs = none := Operand.floatRemainder?_eq_none hl hr
  simp only [assign, ho, hid, hop, compoundSource, hf, hd, true_and] at h
  cases hz : rhs.isZero with
  | true =>
    simp only [hz, if_true] at h
    exact (warns_divisionByZero a line).append (warns_assignTo h)
  | false =>
    simp only [hz, Bool.false_eq_true, if_false] at h
    exact warns_assignTo h

theorem warns_quotient {rest : List Operand} (ho : a.operands = rhs :: lhs :: rest)
    (h : a.binary .div line = .ok b) :
    a.Warns b (if rhs.isZero then [⟨line, .divisionByZero⟩] else []) := by
  simp only [binary, ho, true_and] at h
  cases hz : rhs.isZero with
  | true =>
    simp only [hz, if_true] at h
    obtain ⟨c, hc, hb⟩ := exists_of_bind_ok h
    obtain rfl := Except.ok.inj hb
    obtain ⟨trees, operands, rfl⟩ := exists_of_discard hc
    exact (warns_divisionByZero a line).append (warns_of_eq rfl)
  | false =>
    simp only [hz, Bool.false_eq_true, if_false] at h
    exact warns_node h

/-- The remainder of integers reports nothing, whatever the divisor. -/
theorem warns_remainder {rest : List Operand} (ho : a.operands = rhs :: lhs :: rest)
    (hl : lhs.IsInteger) (hr : rhs.IsInteger) (h : a.binary .mod line = .ok b) : a.Warns b [] := by
  simp only [binary, ho, Operand.floatRemainder?_eq_none hl hr] at h
  exact warns_node h

theorem Divides.two_le_stackDepth {rule : Rule} (h : a.Divides rule lhs rhs) (hp : a.Paired) :
    2 ≤ a.stackDepth := by
  obtain ⟨rest, ho⟩ := h.operands
  rw [← hp, ho]
  simp

theorem Divides.arity_eq_two {rule : Rule} (h : a.Divides rule lhs rhs) : rule.arity = 2 := by
  have hd := h.isDivision
  cases rule
  case binary | assign => rfl
  all_goals cases hd

/-- Behind any events, rejected or not, a division of integers or the remainder of them is applied,
and reports a division by zero exactly once if the divisor is known to be zero, and else not at all.
The binary remainder alone never does. -/
theorem known_zero_divisor_reported (events : List Event) (event : Event) {lhs rhs : Operand}
    (h : (start.attemptAll events).Divides event.rule lhs rhs) :
    ∃ b, (start.attemptAll events).apply event = .ok b ∧
      (start.attemptAll events).Warns b
        (if rhs.isZero ∧ event.rule ≠ .binary .mod then
          [⟨event.location.line, .divisionByZero⟩] else []) := by
  have hp : (start.attemptAll events).Paired := paired_attemptAll paired_start events
  generalize start.attemptAll events = a at h hp
  have hn : event.rule.arity ≤ a.stackDepth := h.arity_eq_two ▸ h.two_le_stackDepth hp
  obtain ⟨b, hb, -⟩ := apply_leaves hp hn
  refine ⟨b, hb, ?_⟩
  obtain ⟨hd, ⟨rest, ho⟩, hl, hr, ht⟩ := h
  obtain ⟨rule, loc⟩ := event
  dsimp only at hd ht ⊢
  unfold Rule.isDivision at hd
  split at hd
  · simpa using warns_quotient ho hb
  · simpa using warns_remainder ho hl hr hb
  · obtain ⟨id, hid⟩ := ht _ rfl
    simpa using warns_compound ho hl hr hid rfl (.inl rfl) hb
  · obtain ⟨id, hid⟩ := ht _ rfl
    simpa using warns_compound ho hl hr hid rfl (.inr rfl) hb
  · cases hd

/-- The remainder of a declared variable by zero, which is assigned to it. -/
theorem assigned_remainder_by_zero_reported :
    ∃ events lhs rhs b, (parse "int x;f()\x7bx%=0;\x7d").events.take 6 = events ∧
      (start.attemptAll events).Divides (.assign .mod) lhs rhs ∧
      (start.attemptAll events).apply ⟨.assign .mod, ⟨1, 12⟩⟩ = .ok b ∧
      (start.attemptAll events).Warns b [⟨1, .divisionByZero⟩] := by
  have he : (parse "int x;f()\x7bx%=0;\x7d").events.take 6 =
      [⟨.typeSpecifier .int, ⟨1, 1⟩⟩, ⟨.declarator "x", ⟨1, 5⟩⟩, ⟨.declaration, ⟨1, 6⟩⟩,
        ⟨.functionDeclarator "f" false, ⟨1, 7⟩⟩, ⟨.identifier "x", ⟨1, 11⟩⟩,
        ⟨.literal (.int 0), ⟨1, 14⟩⟩] := by cbv
  have ho : (start.attemptAll ((parse "int x;f()\x7bx%=0;\x7d").events.take 6)).operands =
      [.constant (.int 0), ⟨some .int, none, some 0⟩, ⟨some .int, none, some 0⟩] := by
    rw [he]
    cbv
  have hd : (start.attemptAll ((parse "int x;f()\x7bx%=0;\x7d").events.take 6)).Divides
      (.assign .mod) ⟨some .int, none, some 0⟩ (.constant (.int 0)) :=
    ⟨rfl, ⟨_, ho⟩, ⟨_, rfl, .inl rfl⟩, ⟨_, rfl, .inl rfl⟩, fun _ _ => ⟨0, rfl⟩⟩
  obtain ⟨b, hb, hw⟩ := known_zero_divisor_reported _ ⟨.assign .mod, ⟨1, 12⟩⟩ hd
  exact ⟨_, _, _, b, rfl, hd, hb, hw⟩

/-- The binary remainder by zero is a division by a known zero, and nothing is reported. -/
theorem remainder_by_zero_unreported :
    ∃ before after b, (parse "int x=1%0;").events = before ++ ⟨.binary .mod, ⟨1, 8⟩⟩ :: after ∧
      (start.attemptAll before).Divides (.binary .mod) (.constant (.int 1)) (.constant (.int 0)) ∧
      (Operand.constant (.int 0)).isZero = true ∧
      (start.attemptAll before).apply ⟨.binary .mod, ⟨1, 8⟩⟩ = .ok b ∧
      b.diagnostics = (start.attemptAll before).diagnostics := by
  have he : (parse "int x=1%0;").events =
      [⟨.typeSpecifier .int, ⟨1, 1⟩⟩, ⟨.declTarget "x", ⟨1, 5⟩⟩, ⟨.literal (.int 1), ⟨1, 7⟩⟩,
        ⟨.literal (.int 0), ⟨1, 9⟩⟩] ++ ⟨.binary .mod, ⟨1, 8⟩⟩ ::
      [⟨.initDeclarator "x", ⟨1, 5⟩⟩, ⟨.declaration, ⟨1, 10⟩⟩] := by cbv
  have hd : (start.attemptAll [⟨.typeSpecifier .int, ⟨1, 1⟩⟩, ⟨.declTarget "x", ⟨1, 5⟩⟩,
      ⟨.literal (.int 1), ⟨1, 7⟩⟩, ⟨.literal (.int 0), ⟨1, 9⟩⟩]).Divides (.binary .mod)
        (.constant (.int 1)) (.constant (.int 0)) :=
    ⟨rfl, ⟨_, rfl⟩, ⟨_, rfl, .inl rfl⟩, ⟨_, rfl, .inl rfl⟩, fun op h => by cases h⟩
  exact ⟨_, _, _, he, hd, rfl, rfl, rfl⟩

end Analyzer

end MiniC
