import MiniC.Proofs.Execution.Arithmetic
import MiniC.Proofs.Grammar.Derivation

/-!
# Running straight-line code

Straight-line code is a function whose body is declarations of `int` and `char` variables,
expressions and nested blocks. Its expressions are over the parameters and variables in scope and
constants of these types, step no variable, and assign to none in the branches of a conditional
expression (`Definition.isStraight`). A parameter of another type is in no expression.

`Definition.run?` is what such a function does. It evaluates from left to right, and a compound
assignment reads its target before its right side. Every parameter and every variable holds at
first whatever number `inputs` gives for it. There is no result where a quotient or a remainder has
none (`BinaryOp.result?`), and none for code that is not straight.

A `Machine` keeps the variables of blocks that have ended, so that a run shows the last number that
each variable held.
-/

namespace MiniC

/-- A variable and the number it holds. -/
structure Variable where
  name : String
  type : DataType
  value : Int
deriving DecidableEq, Repr

/-- All variables, in the order of their declaration. -/
abbrev Memory := List Variable

/-- The names in scope, the innermost first, and the positions of their variables. -/
abbrev Names := List (String × Nat)

/-- The state of a function that runs. -/
structure Machine where
  names : Names
  memory : Memory
deriving DecidableEq, Repr

namespace Memory

/-- The variable that a name stands for, and its position. -/
def find? (memory : Memory) (names : Names) (name : String) : Option (Nat × Variable) := do
  let position ← names.lookup name
  let x ← memory[position]?
  return (position, x)

/-- Stores a number in the variable at a position. -/
def store (memory : Memory) (position : Nat) (n : Int) : Memory :=
  memory.modify position fun x => { x with value := x.type.fit n }

end Memory

namespace Machine

/-- No variables. -/
def start : Machine := ⟨[], []⟩

/-- The names in scope. -/
def visible (m : Machine) : List String := m.names.map Prod.fst

/-- Declares a variable that holds whatever number is put in for it. -/
def declare (inputs : Nat → Int) (name : String) (type : DataType) (m : Machine) : Machine :=
  let position := m.memory.length
  ⟨(name, position) :: m.names, m.memory ++ [⟨name, type, type.fit (inputs position)⟩]⟩

/-- Declares a variable of another type. Its name stands for no number from here on. -/
def hide (name : String) (type : DataType) (m : Machine) : Machine :=
  ⟨m.names.filter (·.1 ≠ name), m.memory ++ [⟨name, type, 0⟩]⟩

end Machine

/-! ## Expressions -/

namespace Term

/-- The name that the expression is, maybe in parentheses. -/
def name? {tier : Tier} : Term tier → Option String
  | identifier name _ => some name
  | parens _ e _ | ofPrimary e | ofPostfixed e | ofBelow e | ofOperands e | ofConditional e
  | ofAssignment e => e.name?
  | literal _ _ | postfixed _ _ _ | unary _ _ _ | binary _ _ _ _ _ | ternary _ _ _ _ _
  | assign _ _ _ _ | comma _ _ _ => none

/-- Whether the expression assigns to no variable. -/
def isPure {tier : Tier} : Term tier → Bool
  | literal _ _ | identifier _ _ => true
  | postfixed e _ _ | unary _ _ e => e.isPure
  | binary lhs _ _ _ rhs => lhs.isPure && rhs.isPure
  | ternary condition _ yes _ no => condition.isPure && yes.isPure && no.isPure
  | assign _ _ _ _ => false
  | comma first _ second => first.isPure && second.isPure
  | parens _ e _ | ofPrimary e | ofPostfixed e | ofBelow e | ofOperands e | ofConditional e
  | ofAssignment e => e.isPure

/-- Whether the expression is straight-line code over the names in scope. -/
def isStraight (visible : List String) {tier : Tier} : Term tier → Bool
  | literal value _ => value.type.IsInteger
  | identifier name _ => name ∈ visible
  | postfixed _ _ _ => false
  | @unary _ op _ _ e => op ≠ .preInc && op ≠ .preDec && e.isStraight visible
  | binary lhs _ _ _ rhs => lhs.isStraight visible && rhs.isStraight visible
  | ternary condition _ yes _ no =>
    condition.isStraight visible && yes.isStraight visible && no.isStraight visible &&
      yes.isPure && no.isPure
  | assign target _ _ source => target.name?.any (· ∈ visible) && source.isStraight visible
  | comma first _ second => first.isStraight visible && second.isStraight visible
  | parens _ e _ | ofPrimary e | ofPostfixed e | ofBelow e | ofOperands e | ofConditional e
  | ofAssignment e => e.isStraight visible

/-- The number that the expression comes to, and the variables behind it. -/
def eval? (names : Names) {tier : Tier} : Term tier → Memory → Option (Int × Memory)
  | literal value _, memory => do
    let n ← value.number?
    return (n, memory)
  | identifier name _, memory => do
    let (_, x) ← memory.find? names name
    return (x.value, memory)
  | postfixed _ _ _, _ => none
  | @unary _ op _ _ e, memory => do
    let (n, memory) ← e.eval? names memory
    return (← op.result? n, memory)
  | @binary _ lhs _ op _ _ _ rhs, memory => do
    let (a, memory) ← lhs.eval? names memory
    let (b, memory) ← rhs.eval? names memory
    return (← op.result? a b, memory)
  | ternary condition _ yes _ no, memory => do
    let (c, memory) ← condition.eval? names memory
    if c = 0 then no.eval? names memory else yes.eval? names memory
  | @assign target _ op _ _ source, memory => do
    let (position, x) ← memory.find? names (← target.name?)
    let (b, memory) ← source.eval? names memory
    let n ← op.result? x.value b
    return (x.type.fit n, memory.store position n)
  | comma first _ second, memory => do
    let (_, memory) ← first.eval? names memory
    second.eval? names memory
  | parens _ e _, memory | ofPrimary e, memory | ofPostfixed e, memory
  | ofBelow e, memory | ofOperands e, memory | ofConditional e, memory
  | ofAssignment e, memory => e.eval? names memory

end Term

/-! ## Declarations -/

namespace Declarator

/-- The name of the variable. -/
def name : Declarator → String
  | plain name _ | initialized name _ _ _ => name

/-- Whether the variable has a straight initializer, or none. The variable is in scope there. -/
def isStraight (visible : List String) : Declarator → Bool
  | plain _ _ => true
  | initialized name _ _ value => value.isStraight (name :: visible)

/-- Declares the variable, and stores what the initializer comes to. -/
def run? (inputs : Nat → Int) (type : DataType) : Declarator → Machine → Option Machine
  | plain name _, m => some (m.declare inputs name type)
  | initialized name _ _ value, m => do
    let declared := m.declare inputs name type
    let (n, memory) ← value.eval? declared.names declared.memory
    return ⟨declared.names, memory.store m.memory.length n⟩

end Declarator

namespace Declarators

/-- The names of the variables, the latest first. -/
def names : Declarators → List String
  | one d => [d.name]
  | more ds _ d => d.name :: ds.names

def isStraight (visible : List String) : Declarators → Bool
  | one d => d.isStraight visible
  | more ds _ d => ds.isStraight visible && d.isStraight (ds.names ++ visible)

def run? (inputs : Nat → Int) (type : DataType) : Declarators → Machine → Option Machine
  | one d, m => d.run? inputs type m
  | more ds _ d, m => do d.run? inputs type (← ds.run? inputs type m)

end Declarators

/-! ## Statements -/

namespace Simple

def isStraight (visible : List String) : Simple → Bool
  | empty _ => true
  | expression e _ => e.isStraight visible

def run? : Simple → Machine → Option Machine
  | empty _, m => some m
  | expression e _, m => do
    let (_, memory) ← e.eval? m.names m.memory
    return { m with memory }

end Simple

namespace Code

/-- The names that the code leaves in scope behind it, the latest first. -/
def names {part : Part} : Code part → List String
  | declaration d => d.declarators.names
  | statement s => s.names
  | one item => item.names
  | more items item => item.names ++ items.names
  | returned _ _ _ | ifThen _ _ _ _ _ | ifElse _ _ _ _ _ _ _ | whileLoop _ _ _ _ _
  | forLoop _ _ _ _ _ | emptyBlock _ _ | block _ _ _ | simple _ => []

/-- Whether the code is straight-line code over the names in scope. -/
def isStraight (visible : List String) {part : Part} : Code part → Bool
  | emptyBlock _ _ => true
  | block _ items _ => items.isStraight visible
  | simple s => s.isStraight visible
  | declaration d => d.type.IsInteger && d.declarators.isStraight visible
  | statement s => s.isStraight visible
  | one item => item.isStraight visible
  | more items item => items.isStraight visible && item.isStraight (items.names ++ visible)
  | returned _ _ _ | ifThen _ _ _ _ _ | ifElse _ _ _ _ _ _ _ | whileLoop _ _ _ _ _
  | forLoop _ _ _ _ _ => false

/-- Runs the code. The names of a block go out of scope at its end, its variables are kept. -/
def run? (inputs : Nat → Int) {part : Part} : Code part → Machine → Option Machine
  | emptyBlock _ _, m => some m
  | block _ items _, m => do return { ← items.run? inputs m with names := m.names }
  | simple s, m => s.run? m
  | declaration d, m => d.declarators.run? inputs d.type m
  | statement s, m => s.run? inputs m
  | one item, m => item.run? inputs m
  | more items item, m => do item.run? inputs (← items.run? inputs m)
  | returned _ _ _, _ | ifThen _ _ _ _ _, _ | ifElse _ _ _ _ _ _ _, _
  | whileLoop _ _ _ _ _, _ | forLoop _ _ _ _ _, _ => none

end Code

/-! ## Functions -/

namespace Parameter

/-- The names in scope behind the parameter. -/
def scope (visible : List String) (p : Parameter) : List String :=
  match p.name with
  | none => visible
  | some (name, _) =>
    if p.type.IsInteger then name :: visible else visible.filter (· ≠ name)

/-- Declares the parameter if it has a name. -/
def enter (inputs : Nat → Int) (m : Machine) (p : Parameter) : Machine :=
  match p.name with
  | none => m
  | some (name, _) =>
    if p.type.IsInteger then m.declare inputs name p.type else m.hide name p.type

end Parameter

namespace ParameterList

/-- The parameters, in order. -/
def all : ParameterList → List Parameter
  | one p => [p]
  | more p _ ps => p :: ps.all

end ParameterList

namespace Parameters

/-- The parameters of a function, in order. -/
def all : Parameters → List Parameter
  | empty | void _ => []
  | list ps => ps.all

/-- The names that the parameters put in scope, the last first. -/
def names (ps : Parameters) : List String := ps.all.foldl Parameter.scope []

end Parameters

namespace Definition

/-- Whether the function is straight-line code. -/
def isStraight (f : Definition) : Bool := f.body.all (·.isStraight f.parameters.names)

/-- Runs the function from its first parameter to the end of its body. -/
def run? (inputs : Nat → Int) (f : Definition) : Option Machine :=
  let entered := f.parameters.all.foldl (Parameter.enter inputs) .start
  f.body.elim (some entered) fun items => items.run? inputs entered

/-- The program that is this function alone, with a type in front of it or not. -/
def program (f : Definition) (type : Option (DataType × Location)) : Program :=
  some (.one (type.elim (.function f) fun (type, loc) => .typedFunction type loc f))

end Definition

end MiniC
