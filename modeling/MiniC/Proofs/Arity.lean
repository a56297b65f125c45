import MiniC.Analysis

/-!
# What a rule takes off the stacks and puts back

`Rule.arity` is the number of finished subtrees that a rule combines, `Rule.builds` says whether it
finishes one itself, and `Rule.label?` is the label of that one. An analysis keeps one operand for
every subtree (`Analyzer.Paired`). As long as it does, a rule that finds its subtrees is applied
(`Analyzer.apply_leaves`), and the stacks are then as deep as the arity says.
-/

namespace MiniC

namespace Rule

/-- The number of finished subtrees that a rule combines. -/
def arity : Rule → Nat
  | unary _ | postfixed _ | functionDefinition _ _ | returned true => 1
  | binary _ | assign _ | comma | initDeclarator _ | sequence | ifThen | whileLoop => 2
  | ifElse | ternary => 3
  | forLoop => 4
  | openScope | closeScope | typeSpecifier _ | functionDeclarator _ _ | parameter _ _
  | declTarget _ | declarator _ | declaration | identifier _ | literal _ | emptyStatement
  | emptyBlock | returned false => 0

/-- Whether a rule finishes a subtree. -/
def builds : Rule → Bool
  | openScope | closeScope | typeSpecifier _ | functionDeclarator _ _ | parameter _ _
  | declaration => false
  | functionDefinition _ _ | declTarget _ | initDeclarator _ | declarator _ | identifier _
  | literal _ | unary _ | postfixed _ | binary _ | assign _ | ternary | comma | emptyStatement
  | emptyBlock | sequence | ifThen | ifElse | whileLoop | forLoop | returned _ => true

/-- The label of the subtree that a rule finishes. -/
def label? : Rule → Option String
  | openScope | closeScope | typeSpecifier _ | functionDeclarator _ _ | parameter _ _
  | declaration => none
  | functionDefinition name _ | declTarget name | identifier name => some name
  | declarator name => some ("Dc " ++ name)
  | literal value => some value.text
  | unary op => some op.label
  | postfixed op => some op.label
  | binary op => some op.label
  | assign op => some op.label
  | initDeclarator _ => some "="
  | comma => some ","
  | emptyStatement => some ";"
  | emptyBlock => some "\x7b\x7d"
  | sequence => some "stmt"
  | ternary | ifThen | ifElse => some "if"
  | whileLoop => some "while"
  | forLoop => some "for"
  | returned _ => some "return"

/-- The number of finished subtrees behind a rule that found `depth` of them. -/
def depthAfter (r : Rule) (depth : Nat) : Nat := depth - r.arity + r.builds.toNat

/-- A rule that combines subtrees makes them one. -/
theorem exists_label {r : Rule} (h : 0 < r.arity) : ∃ label, r.label? = some label := by
  cases r
  case openScope | closeScope | typeSpecifier | functionDeclarator | parameter | declaration =>
    exact (Nat.lt_irrefl 0 h).elim
  all_goals exact ⟨_, rfl⟩

end Rule

namespace Analyzer

/-- There is one operand for every finished subtree. -/
def Paired (a : Analyzer) : Prop := a.operands.length = a.stackDepth

/-- The step ended in a state with one operand for each of its `depth` subtrees. -/
def Leaves (r : Except StackError Analyzer) (depth : Nat) : Prop :=
  ∃ b, r = .ok b ∧ b.Paired ∧ b.stackDepth = depth

theorem paired_start : start.Paired := rfl

/-! ## Steps that leave the stacks alone -/

@[simp] theorem stacks_report (a : Analyzer) (line : Nat) (problem : Problem) :
    (a.report line problem).trees = a.trees ∧ (a.report line problem).operands = a.operands :=
  ⟨rfl, rfl⟩

@[simp] theorem stacks_reportIf (a : Analyzer) (c : Bool) (line : Nat) (problem : Problem) :
    (a.reportIf c line problem).trees = a.trees ∧
      (a.reportIf c line problem).operands = a.operands := by
  cases c <;> exact ⟨rfl, rfl⟩

@[simp] theorem stacks_warnNarrowing (a : Analyzer) (target : DataType)
    (source : Option DataType) (line : Nat) :
    (a.warnNarrowing target source line).trees = a.trees ∧
      (a.warnNarrowing target source line).operands = a.operands := by
  cases source <;> simp [warnNarrowing]

@[simp] theorem stacks_declare (a : Analyzer) (name : String) (kind : SymbolKind)
    (type : DataType) (line : Nat) :
    (a.declare name kind type line).2.trees = a.trees ∧
      (a.declare name kind type line).2.operands = a.operands := by
  simp only [declare]
  split <;> exact ⟨rfl, rfl⟩

@[simp] theorem stacks_compoundSource (a : Analyzer) (op : BinaryOp) (lhs rhs : Operand)
    (line : Nat) :
    (a.compoundSource op lhs rhs line).2.trees = a.trees ∧
      (a.compoundSource op lhs rhs line).2.operands = a.operands := by
  simp only [compoundSource]
  (repeat' split) <;> exact ⟨rfl, rfl⟩

theorem declTarget_eq (a : Analyzer) (name : String) (line : Nat) :
    a.declTarget name line =
      let r := a.declare name .identifier a.declaredType line
      { r.2 with pending := r.1 :: r.2.pending }.leaf name
        ⟨some a.declaredType, none, some r.1.id⟩ := rfl

theorem declarator_eq (a : Analyzer) (name : String) (line : Nat) :
    a.declarator name line =
      let r := a.declare name .identifier a.declaredType line
      r.2.leaf ("Dc " ++ name) ⟨some a.declaredType, none, some r.1.id⟩ := rfl

theorem functionDeclarator_eq (a : Analyzer) (name : String) (typed : Bool) (line : Nat) :
    a.functionDeclarator name typed line =
      let r := (a.reportIf (!typed) line .missingType).declare name .function
        (if typed then a.declaredType else .int) line
      { r.2 with declType := none, symbols := r.2.symbols.openScope } := rfl

theorem identifier_eq (a : Analyzer) (name : String) (line : Nat) :
    a.identifier name line =
      let r := a.symbols.resolve name line
      let symbol := r.2.get? r.1.id
      ({ a with symbols := r.2 }.reportIf (!r.1.inherited && !symbol.any Symbol.isTyped) line
        (.undeclared name)).leaf name ⟨symbol.bind Symbol.type, symbol.bind Symbol.value,
          some r.1.id⟩ := rfl

/-! ## Steps on the stacks -/

@[simp] theorem stackDepth_eq (a : Analyzer) : a.stackDepth = a.trees.trees.length := rfl

variable {a b : Analyzer}

/-- A node is put over subtrees that are there, and takes the place of their operands. -/
theorem node_eq_ok_iff {label : String} {arity : Nat} {operand : Operand} :
    a.node label arity operand = .ok b ↔ arity ≤ a.operands.length ∧ arity ≤ a.stackDepth ∧
      b = { a with
        trees := ⟨.ofChildren label (a.trees.trees.take arity).reverse :: a.trees.trees.drop arity⟩
        operands := operand :: a.operands.drop arity } := by
  unfold node TreeStack.node TreeStack.popMany
  split
  · next ho => exact iff_of_false nofun fun h => Nat.not_lt.2 h.1 ho
  · next ho =>
    split
    · next ht => exact iff_of_false nofun fun h => Nat.not_lt.2 h.2.1 ht
    · next ht =>
      constructor
      · exact fun h => ⟨Nat.not_lt.1 ho, Nat.not_lt.1 ht, (Except.ok.inj h).symm⟩
      · exact fun h => congrArg Except.ok h.2.2.symm

/-- Subtrees that are there are dropped with their operands. -/
theorem discard_eq_ok_iff {label : String} {count : Nat} :
    a.discard label count = .ok b ↔ count ≤ a.stackDepth ∧ b = { a with
      trees := ⟨a.trees.trees.drop count⟩, operands := a.operands.drop count } := by
  unfold discard TreeStack.popMany
  split
  · next ht => exact iff_of_false nofun fun h => Nat.not_lt.2 h.1 ht
  · next ht =>
    constructor
    · exact fun h => ⟨Nat.not_lt.1 ht, (Except.ok.inj h).symm⟩
    · exact fun h => congrArg Except.ok h.2.symm

/-- A leaf behind a step that left the stacks alone. -/
theorem leaf_leaves (h : a.Paired) (hb : b.trees = a.trees ∧ b.operands = a.operands)
    (label : String) (operand : Operand) :
    Leaves (.ok (b.leaf label operand)) (a.stackDepth + 1) := by
  refine ⟨_, rfl, ?_, ?_⟩
  · simpa [Paired, leaf, TreeStack.leaf, TreeStack.push, hb] using h
  · simp [leaf, TreeStack.leaf, TreeStack.push, hb]

/-- A node over subtrees that are there. -/
theorem node_eq (h : a.Paired) {arity : Nat} (hn : arity ≤ a.stackDepth) (label : String)
    (operand : Operand) :
    a.node label arity operand = .ok { a with
      trees := ⟨.ofChildren label (a.trees.trees.take arity).reverse :: a.trees.trees.drop arity⟩
      operands := operand :: a.operands.drop arity } :=
  node_eq_ok_iff.2 ⟨Nat.le_trans hn (Nat.le_of_eq h.symm), hn, rfl⟩

theorem node_leaves (h : a.Paired) {arity : Nat} (hn : arity ≤ a.stackDepth) (label : String)
    (operand : Operand) : Leaves (a.node label arity operand) (a.stackDepth - arity + 1) := by
  refine ⟨_, node_eq h hn label operand, ?_, by simp⟩
  unfold Paired at h ⊢
  simp [h]

theorem discard_eq {count : Nat} (hn : count ≤ a.stackDepth) (label : String) :
    a.discard label count = .ok { a with
      trees := ⟨a.trees.trees.drop count⟩, operands := a.operands.drop count } :=
  discard_eq_ok_iff.2 ⟨hn, rfl⟩

theorem discard_leaves (h : a.Paired) {count : Nat} (hn : count ≤ a.stackDepth) (label : String) :
    Leaves (a.discard label count) (a.stackDepth - count) := by
  refine ⟨_, discard_eq hn label, ?_, by simp⟩
  unfold Paired at h ⊢
  simp [h]

theorem store_leaves (h : a.Paired) (hn : 2 ≤ a.stackDepth) (label : String) (id : SymbolId)
    (type : DataType) (source : Operand) (line : Nat) :
    Leaves (a.store label id type source line) (a.stackDepth - 2 + 1) := by
  have hp : { a.warnNarrowing type source.type line with
      symbols := (a.warnNarrowing type source.type line).symbols.assign id
        (source.value.map (·.convert type)) : Analyzer }.Paired := by
    simpa [Paired] using h
  simpa [store] using node_leaves hp (by simpa using hn) label _

/-! ## One rule -/

/-- Behind fewer operands than there are subtrees stands another one. -/
theorem exists_operand_behind (h : a.Paired) (front : List Operand) {rest : List Operand}
    (ho : a.operands = front ++ rest) (hn : front.length < a.stackDepth) :
    ∃ o more, rest = o :: more := by
  refine List.exists_cons_of_length_pos ?_
  have hl := congrArg List.length ho
  rw [h, List.length_append] at hl
  omega

theorem exists_operand (h : a.Paired) (hn : 1 ≤ a.stackDepth) :
    ∃ o rest, a.operands = o :: rest :=
  exists_operand_behind h [] rfl hn

theorem exists_operands_two (h : a.Paired) (hn : 2 ≤ a.stackDepth) :
    ∃ rhs lhs rest, a.operands = rhs :: lhs :: rest := by
  obtain ⟨rhs, rest, hr⟩ := exists_operand h (Nat.le_of_succ_le hn)
  obtain ⟨lhs, rest, rfl⟩ := exists_operand_behind h [rhs] hr hn
  exact ⟨rhs, lhs, rest, hr⟩

theorem exists_operands_three (h : a.Paired) (hn : 3 ≤ a.stackDepth) :
    ∃ no yes condition rest, a.operands = no :: yes :: condition :: rest := by
  obtain ⟨no, yes, rest, hr⟩ := exists_operands_two h (Nat.le_of_succ_le hn)
  obtain ⟨condition, rest, rfl⟩ := exists_operand_behind h [no, yes] hr hn
  exact ⟨no, yes, condition, rest, hr⟩

theorem binary_leaves (h : a.Paired) (hn : 2 ≤ a.stackDepth) (op : BinaryOp) (line : Nat) :
    Leaves (a.binary op line) (a.stackDepth - 2 + 1) := by
  obtain ⟨rhs, lhs, rest, ho⟩ := exists_operands_two h hn
  simp only [binary, ho]
  split
  · -- both subtrees make room for the leaf of a division by zero
    obtain ⟨b, hb, hp, hd⟩ := discard_leaves (a := a.report line .divisionByZero) h hn op.label
    rw [hb]
    exact hd ▸ leaf_leaves hp ⟨rfl, rfl⟩ divisionSentinel.text (.constant divisionSentinel)
  · split
    · -- of a remainder of floats the left subtree stays
      obtain ⟨b, hb, hp, hd⟩ := discard_leaves (a := a.report line (.invalidOperands _ _)) h
        (Nat.le_of_succ_le hn) BinaryOp.mod.label
      refine ⟨b, hb, hp, ?_⟩
      simp only [stackDepth_eq, stacks_report] at hd hn ⊢
      omega
    · exact node_leaves h hn _ _

theorem assignTo_leaves (h : a.Paired) (hn : 2 ≤ a.stackDepth) (op : AssignOp) (id : SymbolId)
    (source : Operand) (line : Nat) :
    Leaves (a.assignTo op id source line) (a.stackDepth - 2 + 1) := by
  unfold assignTo
  split
  · exact store_leaves h hn _ _ _ _ _
  · exact node_leaves h hn _ _

theorem assign_leaves (h : a.Paired) (hn : 2 ≤ a.stackDepth) (op : AssignOp) (line : Nat) :
    Leaves (a.assign op line) (a.stackDepth - 2 + 1) := by
  obtain ⟨rhs, lhs, rest, ho⟩ := exists_operands_two h hn
  simp only [assign, ho]
  split
  · exact node_leaves (a := a.report line .notAssignable) h hn _ _
  · split
    · exact assignTo_leaves h hn _ _ _ _
    · next arithmetic _ =>
      have hp : (a.compoundSource arithmetic lhs rhs line).2.Paired := by
        simpa [Paired] using h
      simpa using assignTo_leaves hp (by simpa using hn) op _ _ line

theorem initDeclarator_leaves (h : a.Paired) (hn : 2 ≤ a.stackDepth) (line : Nat) :
    Leaves (a.initDeclarator line) (a.stackDepth - 2 + 1) := by
  obtain ⟨init, target, rest, ho⟩ := exists_operands_two h hn
  unfold initDeclarator
  split
  · dsimp only
    split
    · exact node_leaves h hn _ _
    · next pending _ => exact node_leaves (a := { a with pending }) h hn _ _
    · next declared pending _ _ => exact store_leaves (a := { a with pending }) h hn _ _ _ _ _
  · next hno => exact (hno _ _ _ ho).elim

/-- A rule that finds the subtrees it combines is applied. -/
theorem apply_leaves (h : a.Paired) {event : Event} (hn : event.rule.arity ≤ a.stackDepth) :
    Leaves (a.apply event) (event.rule.depthAfter a.stackDepth) := by
  obtain ⟨rule, loc⟩ := event
  cases rule <;> dsimp only [Rule.arity] at hn <;> dsimp only [apply]
  case openScope | closeScope | typeSpecifier | declaration => exact ⟨_, rfl, h, rfl⟩
  case functionDeclarator name typed =>
    exact ⟨_, rfl, by simpa [Paired, functionDeclarator] using h, by simp [functionDeclarator]; rfl⟩
  case parameter name type => exact ⟨_, rfl, by simpa [Paired] using h, by simp; rfl⟩
  case functionDefinition name typed =>
    obtain ⟨b, hb, hp, hd⟩ := node_leaves h hn name .unknown
    rw [hb]
    exact ⟨_, rfl, hp, hd⟩
  case declTarget name =>
    rw [declTarget_eq]
    exact leaf_leaves h (by simp) _ _
  case declarator name =>
    rw [declarator_eq]
    exact leaf_leaves h (by simp) _ _
  case identifier name =>
    rw [identifier_eq]
    exact leaf_leaves h (by simp) _ _
  case initDeclarator name => exact initDeclarator_leaves h hn _
  case literal | emptyStatement | emptyBlock => exact leaf_leaves h ⟨rfl, rfl⟩ _ _
  case unary op | postfixed op =>
    obtain ⟨o, rest, ho⟩ := exists_operand h hn
    simp only [ho]
    exact node_leaves h hn _ _
  case binary op => exact binary_leaves h hn _ _
  case assign op => exact assign_leaves h hn _ _
  case ternary =>
    obtain ⟨no, yes, condition, rest, ho⟩ := exists_operands_three h hn
    simp only [ho]
    exact node_leaves h hn _ _
  case comma =>
    obtain ⟨rhs, lhs, rest, ho⟩ := exists_operands_two h hn
    simp only [ho]
    exact node_leaves h hn _ _
  case sequence | ifThen | ifElse | whileLoop | forLoop => exact node_leaves h hn _ _
  case returned value =>
    cases value
    case false => exact leaf_leaves h ⟨rfl, rfl⟩ _ _
    case true => exact node_leaves h hn _ _

end Analyzer

end MiniC
