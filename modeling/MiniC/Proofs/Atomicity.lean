import Mathlib
import MiniC.Analysis.InPlace
import MiniC.Proofs.Arity

/-!
# A rejected event changes nothing

In place, a rule takes its operands off before its subtrees are combined, and an error between the
two would leave the stacks apart. There is none : a rule is rejected when it takes its operands
(`Analyzer.perform_of_lt`), and a rule that finds them does what `Analyzer.apply` says
(`Analyzer.perform_of_le`). Both rest on there being one operand for every subtree, which every
event keeps, rejected or not (`Analyzer.paired_attemptAll`).
-/

namespace MiniC

namespace Analyzer

variable {a b : Analyzer} {α β : Type}

/-! ## One step after the other -/

theorem bind_of_ok {x : InPlace α} {v : α} (h : x a = .ok v b) (f : α → InPlace β) :
    (x >>= f) a = f v b := by
  change EStateM.bind x f a = f v b
  rw [EStateM.bind, h]

theorem bind_of_error {x : InPlace α} {e : StackError} (h : x a = .error e b)
    (f : α → InPlace β) : (x >>= f) a = .error e b := by
  change EStateM.bind x f a = .error e b
  rw [EStateM.bind, h]

/-! ## The stacks -/

/-- The state without the `count` latest operands. -/
def taken (a : Analyzer) (count : Nat) : Analyzer := { a with operands := a.operands.drop count }

/-- The depth of the shorter stack, which is that of either. -/
theorem min_depths (h : a.Paired) : min a.operands.length a.trees.depth = a.stackDepth := by
  rw [show a.operands.length = a.trees.depth from h, Nat.min_self]
  rfl

theorem take_of_le (h : a.Paired) {count : Nat} (hn : count ≤ a.stackDepth) (label : String) :
    take label count a = .ok (a.operands.take count) (a.taken count) := by
  have hm : ¬min a.operands.length a.trees.depth < count := by
    rw [min_depths h]
    exact Nat.not_lt.2 hn
  simp only [take, bind, EStateM.bind, get, getThe, MonadStateOf.get, EStateM.get, if_neg hm]
  rfl

/-- Operands that are not there are not taken, and nothing was changed before. -/
theorem take_of_lt (h : a.Paired) {count : Nat} (hn : a.stackDepth < count) (label : String) :
    take label count a = .error (.underflow label count a.stackDepth) a := by
  simp only [take, bind, EStateM.bind, get, getThe, MonadStateOf.get, EStateM.get, underflow,
    min_depths h, if_pos hn]
  rfl

/-- The state in which a node is put over the `arity` latest subtrees. -/
def reduced (a : Analyzer) (label : String) (arity : Nat) (operand : Operand) : Analyzer :=
  { a with
    trees := ⟨.ofChildren label (a.trees.trees.take arity).reverse :: a.trees.trees.drop arity⟩
    operands := operand :: a.operands }

theorem reduce_of_le {arity : Nat} (hn : arity ≤ a.stackDepth) (label : String)
    (operand : Operand) :
    reduce label arity operand a = .ok ⟨⟩ (a.reduced label arity operand) := by
  have ht : ¬a.trees.trees.length < arity := Nat.not_lt.2 hn
  simp only [reduce, bind, EStateM.bind, get, getThe, MonadStateOf.get, EStateM.get,
    TreeStack.node, TreeStack.popMany, if_neg ht]
  rfl

theorem dropTrees_of_le (label : String) : ∀ {count : Nat} {a : Analyzer}, count ≤ a.stackDepth →
    dropTrees label count a = .ok ⟨⟩ { a with trees := ⟨a.trees.trees.drop count⟩ }
  | 0, _, _ => rfl
  | count + 1, a, hn => by
    obtain ⟨t, trees, ht⟩ := List.exists_cons_of_length_pos (Nat.lt_of_lt_of_le count.succ_pos hn)
    have hc : count ≤ { a with trees := ⟨trees⟩ : Analyzer }.stackDepth := by
      rw [stackDepth_eq, ht] at hn
      exact Nat.le_of_succ_le_succ hn
    simp only [dropTrees, bind, EStateM.bind, get, getThe, MonadStateOf.get, EStateM.get,
      TreeStack.pop, ht]
    exact dropTrees_of_le label hc

/-! ## Rules that find their operands -/

/-- The steps change the state `c` to the one that `r` is. -/
def Ends (c : Analyzer) (steps : InPlace Unit) (r : Except StackError Analyzer) : Prop :=
  ∃ b, r = .ok b ∧ steps c = .ok ⟨⟩ b

/-- Taking the operands and then combining the subtrees makes a node. -/
theorem reduce_ends (h : a.Paired) {arity : Nat} (hn : arity ≤ a.stackDepth) (label : String)
    (operand : Operand) :
    Ends (a.taken arity) (reduce label arity operand) (a.node label arity operand) :=
  ⟨_, node_eq h hn label operand, reduce_of_le (a := a.taken arity) hn label operand⟩

/-- What the operands are taken for ends as it does behind them. -/
theorem Ends.of_take {r : Except StackError Analyzer} {count : Nat}
    {steps : List Operand → InPlace Unit} (h : a.Paired) (hn : count ≤ a.stackDepth)
    (label : String) (he : Ends (a.taken count) (steps (a.operands.take count)) r) :
    Ends a (take label count >>= steps) r := by
  obtain ⟨b, hr, hb⟩ := he
  exact ⟨b, hr, by rw [bind_of_ok (take_of_le h hn label), hb]⟩

theorem statement_ends (h : a.Paired) {arity : Nat} (hn : arity ≤ a.stackDepth) (label : String) :
    Ends a (statement label arity) (a.node label arity .unknown) :=
  .of_take h hn label (reduce_ends h hn label .unknown)

theorem taken_warnNarrowing (a : Analyzer) (count : Nat) (target : DataType)
    (source : Option DataType) (line : Nat) : (a.taken count).warnNarrowing target source line =
      (a.warnNarrowing target source line).taken count := by
  cases source with
  | none => rfl
  | some source =>
    simp only [warnNarrowing, reportIf]
    split <;> rfl

theorem taken_compoundSource (a : Analyzer) (count : Nat) (op : BinaryOp) (lhs rhs : Operand)
    (line : Nat) : (a.taken count).compoundSource op lhs rhs line =
      ((a.compoundSource op lhs rhs line).1,
        (a.compoundSource op lhs rhs line).2.taken count) := by
  unfold compoundSource
  (repeat' split) <;> rfl

theorem performStore_ends (h : a.Paired) (hn : 2 ≤ a.stackDepth) (label : String) (id : SymbolId)
    (type : DataType) (source : Operand) (line : Nat) :
    Ends (a.taken 2) (performStore label id type source line)
      (a.store label id type source line) := by
  have hw := taken_warnNarrowing a 2 type source.type line
  have hp : (a.warnNarrowing type source.type line).Paired := by simpa [Paired] using h
  have hd : 2 ≤ (a.warnNarrowing type source.type line).stackDepth := by simpa using hn
  obtain ⟨b, hb, hr⟩ := reduce_ends (a := { a.warnNarrowing type source.type line with
      symbols := (a.warnNarrowing type source.type line).symbols.assign id
        (source.value.map (·.convert type)) }) hp hd label
    ⟨some type, source.value.map (·.convert type), none⟩
  refine ⟨b, hb, ?_⟩
  rw [← hr]
  change reduce label 2 _ { (a.taken 2).warnNarrowing type source.type line with
    symbols := ((a.taken 2).warnNarrowing type source.type line).symbols.assign id _ } = _
  rw [hw]
  rfl

/-- A change that cannot fail, in front of other steps. -/
theorem Ends.of_modifyGet {r : Except StackError Analyzer} {g : Analyzer → α × Analyzer}
    {steps : α → InPlace Unit} (he : Ends (g a).2 (steps (g a).1) r) :
    Ends a (modifyGet g >>= steps) r := he

/-- The same of a change without an answer. -/
theorem Ends.of_modify {r : Except StackError Analyzer} {g : Analyzer → Analyzer}
    {steps : PUnit → InPlace Unit} (he : Ends (g a) (steps ⟨⟩) r) :
    Ends a (modify g >>= steps) r := he

theorem popPending_nil (hp : a.pending = []) : popPending a = .ok none a := by
  obtain ⟨symbols, trees, operands, diagnostics, declType, pending⟩ := a
  obtain rfl : pending = [] := hp
  rfl

theorem popPending_cons {declared : Declared} {pending : List Declared}
    (hp : a.pending = declared :: pending) :
    popPending a = .ok (some declared) { a with pending } := by
  change EStateM.Result.ok a.pending.head? { a with pending := a.pending.tail } = _
  rw [hp]
  rfl

theorem performInitDeclarator_ends (h : a.Paired) (hn : 2 ≤ a.stackDepth) (line : Nat) :
    Ends a (performInitDeclarator line) (a.initDeclarator line) := by
  obtain ⟨init, target, rest, ho⟩ := exists_operands_two h hn
  refine .of_take h hn "=" ?_
  have htake : a.operands.take 2 = [init, target] := by rw [ho]; rfl
  rw [htake]
  unfold initDeclarator
  split
  · next init' target' rest' ho' =>
    obtain ⟨rfl, htail⟩ := List.cons.inj (ho.symm.trans ho')
    obtain ⟨rfl, rfl⟩ := List.cons.inj htail
    dsimp only
    split
    · next hp =>
      obtain ⟨b, hb, hr⟩ := reduce_ends h hn "=" ⟨some (target.type.getD .int), none, none⟩
      exact ⟨b, hb, (bind_of_ok (popPending_nil (a := a.taken 2) hp) _).trans hr⟩
    · next id pending hp =>
      obtain ⟨b, hb, hr⟩ := reduce_ends (a := { a with pending }) h hn "="
        ⟨some (target.type.getD .int), none, none⟩
      exact ⟨b, hb, (bind_of_ok (popPending_cons (a := a.taken 2) hp) _).trans hr⟩
    · next declared pending hne hp =>
      obtain ⟨b, hb, hr⟩ := performStore_ends (a := { a with pending }) h hn "=" declared.id
        (target.type.getD .int) init line
      refine ⟨b, hb, (bind_of_ok (popPending_cons (a := a.taken 2) hp) _).trans ?_⟩
      cases declared with
      | redefinition id => exact (hne id rfl).elim
      | fresh | shadowing => exact hr
  · next hno => exact (hno _ _ _ ho).elim

theorem performUnary_ends (h : a.Paired) (hn : 1 ≤ a.stackDepth) (label : String)
    (result : Operand → Operand) : ∃ o rest, a.operands = o :: rest ∧
      Ends a (performUnary label result) (a.node label 1 (result o)) := by
  obtain ⟨o, rest, ho⟩ := exists_operand h hn
  refine ⟨o, rest, ho, .of_take h hn label ?_⟩
  rw [ho]
  exact reduce_ends h hn label (result o)

theorem performBinary_ends (h : a.Paired) (hn : 2 ≤ a.stackDepth) (op : BinaryOp) (line : Nat) :
    Ends a (performBinary op line) (a.binary op line) := by
  obtain ⟨rhs, lhs, rest, ho⟩ := exists_operands_two h hn
  refine .of_take h hn op.label ?_
  simp only [binary, ho, List.take_succ_cons, List.take_zero, List.getD_cons_zero,
    List.getD_cons_succ]
  split
  · -- both subtrees are dropped, and a leaf is put there
    let b := a.report line .divisionByZero
    rw [discard_eq (a := b) hn]
    exact ⟨_, rfl, bind_of_ok (dropTrees_of_le op.label (a := b.taken 2) hn) _⟩
  · cases op
    case mod =>
      cases lhs.floatRemainder? rhs with
      | none => exact reduce_ends h hn BinaryOp.mod.label _
      | some types =>
        -- the right subtree is dropped, and the left operand is put back
        let b := a.report line (.invalidOperands types.1 types.2)
        have h1 : 1 ≤ b.stackDepth := Nat.le_of_succ_le hn
        have hd := discard_eq (a := b) h1 BinaryOp.mod.label
        refine ⟨_, hd, (bind_of_ok (dropTrees_of_le _ (a := b.taken 2) h1) _).trans ?_⟩
        rw [show b.operands = rhs :: lhs :: rest from ho]
        change EStateM.Result.ok _ { b with trees := _, operands := lhs :: b.operands.drop 2 } = _
        rw [show b.operands = rhs :: lhs :: rest from ho]
        rfl
    all_goals exact reduce_ends h hn _ _

theorem performAssignTo_ends (h : a.Paired) (hn : 2 ≤ a.stackDepth) (op : AssignOp)
    (id : SymbolId) (source : Operand) (line : Nat) :
    Ends (a.taken 2) (performAssignTo op id source line) (a.assignTo op id source line) := by
  refine .of_modifyGet (g := fun a => (a, a)) ?_
  unfold assignTo
  have hs : (a.taken 2).symbols = a.symbols := rfl
  rw [hs]
  cases (a.symbols.get? id).bind Symbol.type with
  | some type => exact performStore_ends h hn op.label id type source line
  | none => exact reduce_ends h hn op.label .unknown

theorem performAssign_ends (h : a.Paired) (hn : 2 ≤ a.stackDepth) (op : AssignOp) (line : Nat) :
    Ends a (performAssign op line) (a.assign op line) := by
  obtain ⟨rhs, lhs, rest, ho⟩ := exists_operands_two h hn
  refine .of_take h hn op.label ?_
  simp only [assign, ho, List.take_succ_cons, List.take_zero, List.getD_cons_zero,
    List.getD_cons_succ]
  cases lhs.symbol with
  | none =>
    exact .of_modify (reduce_ends (a := a.report line .notAssignable) h hn op.label
      ⟨lhs.type, none, none⟩)
  | some id =>
    cases op.arithmetic? with
    | none => exact performAssignTo_ends h hn op id rhs line
    | some arithmetic =>
      refine .of_modifyGet ?_
      rw [taken_compoundSource]
      have hp : (a.compoundSource arithmetic lhs rhs line).2.Paired := by simpa [Paired] using h
      exact performAssignTo_ends hp (by simpa using hn) op id _ line

/-- A rule that finds its operands does in place what it does to a state that is replaced. -/
theorem perform_of_le (h : a.Paired) {event : Event} (hn : event.rule.arity ≤ a.stackDepth) :
    Ends a (perform event) (a.apply event) := by
  obtain ⟨rule, loc⟩ := event
  cases rule <;> dsimp only [Rule.arity] at hn <;> dsimp only [apply, perform]
  case openScope | closeScope | typeSpecifier | declaration | functionDeclarator | parameter
      | declTarget | declarator | identifier | literal | emptyStatement | emptyBlock =>
    exact ⟨_, rfl, rfl⟩
  case functionDefinition name typed =>
    obtain ⟨b, hb, hs⟩ := statement_ends h hn name
    rw [hb]
    exact ⟨_, rfl, bind_of_ok hs _⟩
  case initDeclarator name => exact performInitDeclarator_ends h hn _
  case unary op =>
    obtain ⟨o, rest, ho, he⟩ := performUnary_ends h hn op.label (.unary op)
    simpa only [ho] using he
  case postfixed op =>
    obtain ⟨o, rest, ho, he⟩ := performUnary_ends h hn op.label (.postfixed op)
    simpa only [ho] using he
  case binary op => exact performBinary_ends h hn op _
  case assign op => exact performAssign_ends h hn op _
  case ternary =>
    obtain ⟨no, yes, condition, rest, ho⟩ := exists_operands_three h hn
    simp only [ho]
    refine .of_take h hn "if" ?_
    rw [ho]
    exact reduce_ends h hn "if" _
  case comma =>
    obtain ⟨rhs, lhs, rest, ho⟩ := exists_operands_two h hn
    simp only [ho]
    refine .of_take h hn "," ?_
    rw [ho]
    exact reduce_ends h hn "," _
  case sequence | ifThen | ifElse | whileLoop | forLoop => exact statement_ends h hn _
  case returned value =>
    cases value
    case false => exact ⟨_, rfl, rfl⟩
    case true => exact statement_ends h hn _

/-! ## Rules that do not -/

/-- A rule with fewer subtrees than it combines is rejected before it changes anything. -/
theorem perform_of_lt (h : a.Paired) {event : Event} {label : String}
    (hl : event.rule.label? = some label) (hn : a.stackDepth < event.rule.arity) :
    perform event a = .error (.underflow label event.rule.arity a.stackDepth) a := by
  have ht : ∀ (label : String) (count : Nat) (f : List Operand → InPlace Unit),
      a.stackDepth < count →
        (take label count >>= f) a = .error (.underflow label count a.stackDepth) a :=
    fun label count f hc => bind_of_error (take_of_lt h hc label) f
  obtain ⟨rule, loc⟩ := event
  cases rule <;> dsimp only [Rule.arity] at hn <;> cases hl <;> dsimp only [perform, Rule.arity]
  case declTarget | declarator | identifier | literal | emptyStatement | emptyBlock =>
    exact (Nat.not_lt_zero _ hn).elim
  case functionDefinition => exact bind_of_error (ht _ 1 _ hn) _
  case returned value =>
    cases value
    case false => exact (Nat.not_lt_zero _ hn).elim
    case true => exact ht _ _ _ hn
  all_goals exact ht _ _ _ hn

/-- Where there are fewer than `count` operands, they are not what a rule of `count` looks for. -/
theorem operands_ne_of_lt (h : a.Paired) (front : List Operand) {rest : List Operand}
    (hn : a.stackDepth < front.length) : a.operands ≠ front ++ rest := by
  intro ho
  have hl := congrArg List.length ho
  rw [h, List.length_append] at hl
  omega

theorem underflow_eq (h : a.Paired) (label : String) (needed : Nat) :
    a.underflow label needed = .underflow label needed a.stackDepth := by
  rw [underflow, min_depths h]

theorem node_of_lt (h : a.Paired) {arity : Nat} (hn : a.stackDepth < arity) (label : String)
    (operand : Operand) :
    a.node label arity operand = .error (.underflow label arity a.stackDepth) := by
  rw [node, if_pos (h ▸ hn : a.operands.length < arity), underflow_eq h]

/-- A state that is replaced is rejected by the same rules with the same error. -/
theorem apply_of_lt (h : a.Paired) {event : Event} {label : String}
    (hl : event.rule.label? = some label) (hn : a.stackDepth < event.rule.arity) :
    a.apply event = .error (.underflow label event.rule.arity a.stackDepth) := by
  obtain ⟨rule, loc⟩ := event
  cases rule <;> dsimp only [Rule.arity] at hn <;> cases hl <;> dsimp only [apply, Rule.arity]
  case declTarget | declarator | identifier | literal | emptyStatement | emptyBlock =>
    exact (Nat.not_lt_zero _ hn).elim
  case functionDefinition =>
    rw [node_of_lt h hn]
    rfl
  case unary op | postfixed op =>
    split
    · next o rest ho => exact (operands_ne_of_lt h [o] hn ho).elim
    · rw [underflow_eq h]
  case ternary =>
    split
    · next no yes condition rest ho =>
      exact (operands_ne_of_lt h [no, yes, condition] hn ho).elim
    · rw [underflow_eq h]
  case comma =>
    split
    · next rhs lhs rest ho => exact (operands_ne_of_lt h [rhs, lhs] hn ho).elim
    · rw [underflow_eq h]
  case binary op | assign op | initDeclarator name =>
    simp only [binary, assign, initDeclarator]
    split
    · next rhs lhs rest ho => exact (operands_ne_of_lt h [rhs, lhs] hn ho).elim
    · rw [underflow_eq h]
  case sequence | ifThen | ifElse | whileLoop | forLoop => exact node_of_lt h hn _ _
  case returned value =>
    cases value
    case false => exact (Nat.not_lt_zero _ hn).elim
    case true => exact node_of_lt h hn _ _

/-! ## Any events in any order -/

/-- An event that is rejected leaves the state as it was. -/
theorem attempt_of_lt (h : a.Paired) {event : Event} (hn : a.stackDepth < event.rule.arity) :
    a.attempt event = a := by
  obtain ⟨label, hl⟩ := Rule.exists_label (Nat.zero_lt_of_lt hn)
  rw [attempt, perform_of_lt h hl hn]

/-- An event that is not leaves the state that `Analyzer.apply` answers with. -/
theorem apply_attempt (h : a.Paired) {event : Event} (hn : event.rule.arity ≤ a.stackDepth) :
    a.apply event = .ok (a.attempt event) := by
  obtain ⟨b, hb, hs⟩ := perform_of_le h hn
  rw [attempt, hs, hb]

/-- An event keeps one operand for every subtree, also when it is rejected. -/
theorem paired_attempt (h : a.Paired) (event : Event) : (a.attempt event).Paired := by
  rcases Nat.lt_or_ge a.stackDepth event.rule.arity with hn | hn
  · rwa [attempt_of_lt h hn]
  · obtain ⟨b, hb, hp, -⟩ := apply_leaves h hn
    obtain rfl := Except.ok.inj ((apply_attempt h hn).symm.trans hb)
    exact hp

theorem paired_attemptAll (h : a.Paired) (events : List Event) : (a.attemptAll events).Paired := by
  induction events generalizing a with
  | nil => exact h
  | cons event events ih => exact ih (paired_attempt h event)

/-- Behind any events, rejected or not, there are as many operands as subtrees. The next one is
rejected if and only if there are fewer subtrees than its rule combines, the error then says how
many it needs and how many there are, and the state is what it was before. `Analyzer.apply` accepts
and rejects the same events. -/
theorem perform_atomic (events : List Event) (event : Event) :
    let a := start.attemptAll events
    a.operands.length = a.stackDepth ∧
      ((∃ e b, perform event a = .error e b) ↔ a.stackDepth < event.rule.arity) ∧
      (∀ e b, perform event a = .error e b → b = a ∧ ∃ label, event.rule.label? = some label ∧
        e = .underflow label event.rule.arity a.stackDepth) ∧
      (∀ b, perform event a = .ok ⟨⟩ b ↔ a.apply event = .ok b) ∧
      ∀ e, (∃ b, perform event a = .error e b) ↔ a.apply event = .error e := by
  intro a
  have h : a.Paired := paired_attemptAll paired_start events
  refine ⟨h, ?_⟩
  rcases Nat.lt_or_ge a.stackDepth event.rule.arity with hn | hn
  · obtain ⟨label, hl⟩ := Rule.exists_label (Nat.zero_lt_of_lt hn)
    rw [perform_of_lt h hl hn, apply_of_lt h hl hn]
    refine ⟨iff_of_true ⟨_, _, rfl⟩ hn, fun e b he => ?_, by simp, by simp⟩
    cases he
    exact ⟨rfl, label, hl, rfl⟩
  · obtain ⟨b, hb, hs⟩ := perform_of_le h hn
    rw [hb, hs]
    exact ⟨iff_of_false (by simp) (Nat.not_lt.2 hn), by simp, by simp, by simp⟩

end Analyzer

end MiniC
