import MiniC.Tree

/-!
# Building trees bottom up

The operands of a construct are finished before the construct, so they wait on a `TreeStack`.
`TreeStack.node` takes as many trees off the stack as the construct has operands, and puts back one
node with these operands in the order in which they were pushed. A stack that ends with one tree has
it as its `root?`.
-/

namespace MiniC

/-- What goes wrong with a stack of trees. -/
inductive StackError where
  /-- The construct `label` needs more trees than there are. -/
  | underflow (label : String) (needed available : Nat)
  /-- At the end there is not exactly one tree. -/
  | unbalanced (depth : Nat)
deriving DecidableEq, Inhabited, Repr

namespace StackError

/-- The error in words. -/
def text : StackError → String
  | underflow label needed available =>
    s!"construction stack underflow building '{label}': needed {needed}, had {available}"
  | unbalanced depth =>
    s!"construction stack holds {depth} nodes at end of input, expected exactly 1"

end StackError

/-- The finished trees that wait for their construct, the latest first. -/
structure TreeStack where
  trees : List Tree
deriving DecidableEq, Inhabited, Repr

namespace TreeStack

/-- No trees. -/
def empty : TreeStack := ⟨[]⟩

/-- The number of trees on the stack. -/
def depth (s : TreeStack) : Nat := s.trees.length

/-- Whether there are no trees. -/
def isEmpty (s : TreeStack) : Bool := s.trees.isEmpty

/-- Puts a tree on top. -/
def push (s : TreeStack) (t : Tree) : TreeStack := ⟨t :: s.trees⟩

/-- Takes the `count` latest trees off, for the construct `label`. They come in the order in which
they were pushed. -/
def popMany (s : TreeStack) (count : Nat) (label : String) :
    Except StackError (List Tree × TreeStack) :=
  if s.trees.length < count then .error (.underflow label count s.trees.length)
  else .ok ((s.trees.take count).reverse, ⟨s.trees.drop count⟩)

/-- Takes the latest tree off, for the construct `label`. -/
def pop (s : TreeStack) (label : String) : Except StackError (Tree × TreeStack) :=
  match s.trees with
  | [] => .error (.underflow label 1 0)
  | t :: trees => .ok (t, ⟨trees⟩)

/-- Puts a leaf on top. -/
def leaf (s : TreeStack) (label : String) : TreeStack := s.push (.leaf label)

/-- Replaces the `arity` latest trees by a node over them. -/
def node (s : TreeStack) (label : String) (arity : Nat) : Except StackError TreeStack := do
  let (children, rest) ← s.popMany arity label
  return rest.push (.ofChildren label children)

/-- The only tree on the stack. -/
def root? (s : TreeStack) : Except StackError Tree :=
  match s.trees with
  | [t] => .ok t
  | trees => .error (.unbalanced trees.length)

end TreeStack

end MiniC
