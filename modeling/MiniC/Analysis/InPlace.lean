import MiniC.Analysis.Analyzer

/-!
# Analysing in place

`Analyzer.apply` answers with the state behind an event, or with an error and no state. Here the
same rules are completed by changing one state as the work goes on : the operands of a rule are
taken off their stack first, then problems are reported and values stored, and the subtrees are
combined last. An error leaves the state as it was at that moment, with all that was changed before.

`Analyzer.perform` completes one rule in place. `Analyzer.attempt` is the state behind an event that
may have been rejected, and `Analyzer.attemptAll` the state behind a list of them.
-/

namespace MiniC

/-- Work on the state of an analysis that can be cut short by an error. -/
abbrev InPlace (α : Type) := EStateM StackError Analyzer α

namespace Analyzer

/-! ## The stacks -/

/-- Goes on with the outcome of a step on the trees. -/
def orFail {α : Type} (r : Except StackError α) : InPlace α :=
  match r with
  | .ok x => pure x
  | .error e => throw e

/-- Takes the `count` latest operands off, for the construct `label`, the latest first. Their
subtrees stay where they are. -/
def take (label : String) (count : Nat) : InPlace (List Operand) := do
  let a ← get
  if min a.operands.length a.trees.depth < count then throw (a.underflow label count)
  set { a with operands := a.operands.drop count }
  return a.operands.take count

/-- Puts an operand on top. -/
def pushOperand (operand : Operand) : InPlace Unit :=
  modify fun a => { a with operands := operand :: a.operands }

/-- The `arity` latest subtrees become a node, of which `operand` is known. Their operands were
taken before. -/
def reduce (label : String) (arity : Nat) (operand : Operand) : InPlace Unit := do
  let a ← get
  let trees ← orFail (a.trees.node label arity)
  set { a with trees }
  pushOperand operand

/-- The `count` latest subtrees are dropped one by one. Their operands were taken before. -/
def dropTrees (label : String) : Nat → InPlace Unit
  | 0 => pure ()
  | count + 1 => do
    let a ← get
    let (_, trees) ← orFail (a.trees.pop label)
    set { a with trees }
    dropTrees label count

/-- A construct of which nothing is known. -/
def statement (label : String) (arity : Nat) : InPlace Unit := do
  let _ ← take label arity
  reduce label arity .unknown

/-! ## Rules with parts -/

/-- Stores the value of `source` in a symbol of type `type`, and becomes the construct `label`. -/
def performStore (label : String) (id : SymbolId) (type : DataType) (source : Operand)
    (line : Nat) : InPlace Unit := do
  let value := source.value.map (·.convert type)
  modify (·.warnNarrowing type source.type line)
  modify fun a => { a with symbols := a.symbols.assign id value }
  reduce label 2 ⟨some type, value, none⟩

/-- The latest variable that waits for its initializer, which is taken off. -/
def popPending : InPlace (Option Declared) :=
  modifyGet fun a => (a.pending.head?, { a with pending := a.pending.tail })

/-- A variable behind its initializer. -/
def performInitDeclarator (line : Nat) : InPlace Unit := do
  let taken ← take "=" 2
  let init := taken.getD 0 .unknown
  let target := taken.getD 1 .unknown
  let type := target.type.getD .int
  match ← popPending with
  | none | some (.redefinition _) => reduce "=" 2 ⟨some type, none, none⟩
  | some declared => performStore "=" declared.id type init line

/-- An operator on one operand, after which `result` is known. -/
def performUnary (label : String) (result : Operand → Operand) : InPlace Unit := do
  let taken ← take label 1
  reduce label 1 (result (taken.getD 0 .unknown))

/-- A binary operator. -/
def performBinary (op : BinaryOp) (line : Nat) : InPlace Unit := do
  let taken ← take op.label 2
  let rhs := taken.getD 0 .unknown
  let lhs := taken.getD 1 .unknown
  if op = .div ∧ rhs.isZero then
    modify (·.report line .divisionByZero)
    dropTrees op.label 2
    modify (·.leaf divisionSentinel.text (.constant divisionSentinel))
  else
    match op, lhs.floatRemainder? rhs with
    | .mod, some (l, r) =>
      modify (·.report line (.invalidOperands l r))
      dropTrees op.label 1
      pushOperand lhs
    | _, _ => reduce op.label 2 (.binary op lhs rhs)

/-- Stores `source` in the symbol with number `id`, if that has a type. -/
def performAssignTo (op : AssignOp) (id : SymbolId) (source : Operand) (line : Nat) :
    InPlace Unit := do
  match ((← get).symbols.get? id).bind Symbol.type with
  | some type => performStore op.label id type source line
  | none => reduce op.label 2 .unknown

/-- An assignment. -/
def performAssign (op : AssignOp) (line : Nat) : InPlace Unit := do
  let taken ← take op.label 2
  let rhs := taken.getD 0 .unknown
  let lhs := taken.getD 1 .unknown
  match lhs.symbol with
  | none =>
    modify (·.report line .notAssignable)
    reduce op.label 2 ⟨lhs.type, none, none⟩
  | some id =>
    match op.arithmetic? with
    | none => performAssignTo op id rhs line
    | some arithmetic =>
      let source ← modifyGet (·.compoundSource arithmetic lhs rhs line)
      performAssignTo op id source line

/-- A conditional expression. -/
def performTernary : InPlace Unit := do
  let taken ← take "if" 3
  reduce "if" 3 (.conditional (taken.getD 2 .unknown) (taken.getD 1 .unknown)
    (taken.getD 0 .unknown))

/-- Two expressions, of which the second one is the value. -/
def performComma : InPlace Unit := do
  let taken ← take "," 2
  let rhs := taken.getD 0 .unknown
  reduce "," 2 ⟨rhs.type, rhs.value, none⟩

/-! ## One event -/

/-- Completes a rule in place. -/
def perform (event : Event) : InPlace Unit :=
  let line := event.location.line
  match event.rule with
  | .openScope => modify fun a => { a with symbols := a.symbols.openScope }
  | .closeScope => modify fun a => { a with symbols := a.symbols.closeScope }
  | .typeSpecifier type => modify fun a => { a with declType := some type }
  | .functionDeclarator name typed => modify (·.functionDeclarator name typed line)
  | .parameter name type => modify fun a => (a.declare name .param type line).2
  | .functionDefinition name _ => do
    statement name 1
    modify fun a => { a with symbols := a.symbols.closeScope }
  | .declTarget name => modify (·.declTarget name line)
  | .initDeclarator _ => performInitDeclarator line
  | .declarator name => modify (·.declarator name line)
  | .declaration => modify fun a => { a with declType := none }
  | .identifier name => modify (·.identifier name line)
  | .literal value => modify (·.leaf value.text (.constant value))
  | .unary op => performUnary op.label (.unary op)
  | .postfixed op => performUnary op.label (.postfixed op)
  | .binary op => performBinary op line
  | .assign op => performAssign op line
  | .ternary => performTernary
  | .comma => performComma
  | .emptyStatement => modify (·.leaf ";" .unknown)
  | .emptyBlock => modify (·.leaf "\x7b\x7d" .unknown)
  | .sequence => statement "stmt" 2
  | .ifThen => statement "if" 2
  | .ifElse => statement "if" 3
  | .whileLoop => statement "while" 2
  | .forLoop => statement "for" 4
  | .returned true => statement "return" 1
  | .returned false => modify (·.leaf "return" .unknown)

/-- The state behind an event, which may have been rejected. -/
def attempt (a : Analyzer) (event : Event) : Analyzer :=
  match perform event a with
  | .ok _ b => b
  | .error _ b => b

/-- The state behind a list of events, any of which may have been rejected. -/
def attemptAll (a : Analyzer) (events : List Event) : Analyzer := events.foldl attempt a

end Analyzer

end MiniC
