import MiniC.Analysis.Operand
import MiniC.Diagnostic
import MiniC.Event
import MiniC.Tree.Stack

/-!
# Analysing events

An `Analyzer` is the state of an analysis between two events. It holds the symbol table, the
diagnostics so far, the type of the declaration that is being read, and two stacks : the finished
subtrees, and for each of them the `Operand` that says what is known of it.

`Analyzer.apply` completes one rule. A rule with parts takes their subtrees and operands off the
stacks and puts back one of each; without enough of them it fails, and the state stays as it was.
Everything else that is wrong with a program is reported as a `Problem` and does not stop the
analysis.
-/

namespace MiniC

/-- The state of an analysis between two events. -/
structure Analyzer where
  symbols : SymbolTable
  /-- The finished subtrees. -/
  trees : TreeStack
  /-- What is known of the finished subtrees, of the latest first. -/
  operands : List Operand
  /-- The problems found, in order. -/
  diagnostics : List Diagnostic
  /-- The type of the declaration that is being read. -/
  declType : Option DataType
  /-- The variables that wait for their initializers, the latest first. -/
  pending : List Declared
deriving Inhabited

namespace Analyzer

/-- The state before the first event. -/
def start : Analyzer := ⟨.empty, .empty, [], [], none, []⟩

/-- The number of finished subtrees. -/
def stackDepth (a : Analyzer) : Nat := a.trees.depth

/-- Reports a problem. -/
def report (a : Analyzer) (line : Nat) (problem : Problem) : Analyzer :=
  { a with diagnostics := a.diagnostics ++ [⟨line, problem⟩] }

/-- Reports a problem if there is one. -/
def reportIf (a : Analyzer) (condition : Bool) (line : Nat) (problem : Problem) : Analyzer :=
  if condition then a.report line problem else a

/-! ## The stacks -/

/-- The construct `label` needs more subtrees than there are. -/
def underflow (a : Analyzer) (label : String) (needed : Nat) : StackError :=
  .underflow label needed (min a.operands.length a.trees.depth)

/-- A leaf is finished. -/
def leaf (a : Analyzer) (label : String) (operand : Operand) : Analyzer :=
  { a with trees := a.trees.leaf label, operands := operand :: a.operands }

/-- The `arity` latest subtrees become a node, of which `operand` is known. -/
def node (a : Analyzer) (label : String) (arity : Nat) (operand : Operand) :
    Except StackError Analyzer :=
  if a.operands.length < arity then .error (a.underflow label arity)
  else do
    let trees ← a.trees.node label arity
    return { a with trees, operands := operand :: a.operands.drop arity }

/-- The `count` latest subtrees are dropped, with what is known of them. -/
def discard (a : Analyzer) (label : String) (count : Nat) : Except StackError Analyzer := do
  let (_, trees) ← a.trees.popMany count label
  return { a with trees, operands := a.operands.drop count }

/-! ## Declarations -/

/-- The type of the declaration that is being read, `int` when it was left out. -/
def declaredType (a : Analyzer) : DataType := a.declType.getD .int

/-- Declares a name in the current scope, and reports a redefinition. -/
def declare (a : Analyzer) (name : String) (kind : SymbolKind) (type : DataType) (line : Nat) :
    Declared × Analyzer :=
  let (declared, symbols) := a.symbols.declare name kind type none line
  let a := { a with symbols }
  match declared with
  | .redefinition _ => (declared, a.report line (.redefinition name))
  | _ => (declared, a)

/-- The name of a function : its parameters and its body share a scope of their own. -/
def functionDeclarator (a : Analyzer) (name : String) (typed : Bool) (line : Nat) : Analyzer :=
  let type := if typed then a.declaredType else .int
  let (_, a) := (a.reportIf (!typed) line .missingType).declare name .function type line
  { a with declType := none, symbols := a.symbols.openScope }

/-- A variable without an initializer. -/
def declarator (a : Analyzer) (name : String) (line : Nat) : Analyzer :=
  let (declared, b) := a.declare name .identifier a.declaredType line
  b.leaf ("Dc " ++ name) ⟨some a.declaredType, none, some declared.id⟩

/-- A variable in front of its initializer. -/
def declTarget (a : Analyzer) (name : String) (line : Nat) : Analyzer :=
  let (declared, b) := a.declare name .identifier a.declaredType line
  { b with pending := declared :: b.pending }.leaf name
    ⟨some a.declaredType, none, some declared.id⟩

/-- Reports that a value of type `source`, if that is known, is stored as `target`. -/
def warnNarrowing (a : Analyzer) (target : DataType) (source : Option DataType) (line : Nat) :
    Analyzer :=
  match source with
  | some source => a.reportIf (source.narrows target) line (.narrowing source target)
  | none => a

/-- Stores a value in a symbol of type `type`, and becomes the construct `label`. -/
def store (a : Analyzer) (label : String) (id : SymbolId) (type : DataType) (source : Operand)
    (line : Nat) : Except StackError Analyzer :=
  let value := source.value.map (·.convert type)
  let b := a.warnNarrowing type source.type line
  { b with symbols := b.symbols.assign id value }.node label 2 ⟨some type, value, none⟩

/-- A variable behind its initializer. A redefined variable stays as it was. -/
def initDeclarator (a : Analyzer) (line : Nat) : Except StackError Analyzer :=
  match a.operands with
  | init :: target :: _ =>
    let type := target.type.getD .int
    match a.pending with
    | [] => a.node "=" 2 ⟨some type, none, none⟩
    | .redefinition _ :: pending => { a with pending }.node "=" 2 ⟨some type, none, none⟩
    | declared :: pending => { a with pending }.store "=" declared.id type init line
  | _ => .error (a.underflow "=" 2)

/-! ## Expressions -/

/-- A use of a name. A name without a type is reported once in its scope, and the scopes inside
inherit it. -/
def identifier (a : Analyzer) (name : String) (line : Nat) : Analyzer :=
  let (r, symbols) := a.symbols.resolve name line
  let symbol := symbols.get? r.id
  let undeclared := !r.inherited && !symbol.any Symbol.isTyped
  ({ a with symbols }.reportIf undeclared line (.undeclared name)).leaf name
    ⟨symbol.bind Symbol.type, symbol.bind Symbol.value, some r.id⟩

/-- The leaf that stands for a division by zero. -/
def divisionSentinel : Value := .int Int32.maxValue

/-- A binary operator. A division by a known zero becomes one leaf, and of an invalid remainder only
the left operand stays. -/
def binary (a : Analyzer) (op : BinaryOp) (line : Nat) : Except StackError Analyzer :=
  match a.operands with
  | rhs :: lhs :: _ =>
    if op = .div ∧ rhs.isZero then do
      let b ← (a.report line .divisionByZero).discard op.label 2
      return b.leaf divisionSentinel.text (.constant divisionSentinel)
    else
      match op, lhs.floatRemainder? rhs with
      | .mod, some (l, r) => (a.report line (.invalidOperands l r)).discard op.label 1
      | _, _ => a.node op.label 2 (.binary op lhs rhs)
  | _ => .error (a.underflow op.label 2)

/-- What a compound assignment stores, before it is converted, and what it reports. -/
def compoundSource (a : Analyzer) (op : BinaryOp) (lhs rhs : Operand) (line : Nat) :
    Operand × Analyzer :=
  match op, lhs.floatRemainder? rhs with
  | .mod, some (l, r) => (⟨lhs.type, none, none⟩, a.report line (.invalidOperands l r))
  | _, _ =>
    if (op = .div ∨ op = .mod) ∧ rhs.isZero then
      (⟨lhs.type, none, none⟩, a.report line .divisionByZero)
    else (⟨lhs.promoted rhs, lhs.folded op rhs, none⟩, a)

/-- Stores `source` in the symbol with number `id`. A symbol without a type stores nothing. -/
def assignTo (a : Analyzer) (op : AssignOp) (id : SymbolId) (source : Operand) (line : Nat) :
    Except StackError Analyzer :=
  match (a.symbols.get? id).bind Symbol.type with
  | some type => a.store op.label id type source line
  | none => a.node op.label 2 .unknown

/-- An assignment. Only a name can be assigned to. -/
def assign (a : Analyzer) (op : AssignOp) (line : Nat) : Except StackError Analyzer :=
  match a.operands with
  | rhs :: lhs :: _ =>
    match lhs.symbol with
    | none => (a.report line .notAssignable).node op.label 2 ⟨lhs.type, none, none⟩
    | some id =>
      match op.arithmetic? with
      | none => a.assignTo op id rhs line
      | some arithmetic =>
        let (source, b) := a.compoundSource arithmetic lhs rhs line
        b.assignTo op id source line
  | _ => .error (a.underflow op.label 2)

/-! ## One event -/

/-- Completes a rule. -/
def apply (a : Analyzer) (event : Event) : Except StackError Analyzer :=
  let line := event.location.line
  match event.rule with
  | .openScope => .ok { a with symbols := a.symbols.openScope }
  | .closeScope => .ok { a with symbols := a.symbols.closeScope }
  | .typeSpecifier type => .ok { a with declType := some type }
  | .functionDeclarator name typed => .ok (a.functionDeclarator name typed line)
  | .parameter name type => .ok (a.declare name .param type line).2
  | .functionDefinition name _ => do
    let b ← a.node name 1 .unknown
    return { b with symbols := b.symbols.closeScope }
  | .declTarget name => .ok (a.declTarget name line)
  | .initDeclarator _ => a.initDeclarator line
  | .declarator name => .ok (a.declarator name line)
  | .declaration => .ok { a with declType := none }
  | .identifier name => .ok (a.identifier name line)
  | .literal value => .ok (a.leaf value.text (.constant value))
  | .unary op =>
    match a.operands with
    | o :: _ => a.node op.label 1 (.unary op o)
    | [] => .error (a.underflow op.label 1)
  | .postfixed op =>
    match a.operands with
    | o :: _ => a.node op.label 1 (.postfixed op o)
    | [] => .error (a.underflow op.label 1)
  | .binary op => a.binary op line
  | .assign op => a.assign op line
  | .ternary =>
    match a.operands with
    | no :: yes :: condition :: _ => a.node "if" 3 (.conditional condition yes no)
    | _ => .error (a.underflow "if" 3)
  | .comma =>
    match a.operands with
    | rhs :: _ :: _ => a.node "," 2 ⟨rhs.type, rhs.value, none⟩
    | _ => .error (a.underflow "," 2)
  | .emptyStatement => .ok (a.leaf ";" .unknown)
  | .emptyBlock => .ok (a.leaf "\x7b\x7d" .unknown)
  | .sequence => a.node "stmt" 2 .unknown
  | .ifThen => a.node "if" 2 .unknown
  | .ifElse => a.node "if" 3 .unknown
  | .whileLoop => a.node "while" 2 .unknown
  | .forLoop => a.node "for" 4 .unknown
  | .returned true => a.node "return" 1 .unknown
  | .returned false => .ok (a.leaf "return" .unknown)

end Analyzer

end MiniC
