/-!
# Syntax trees

A node has a label, a level and four slots for its children. A slot holds a tree or is `empty`, and
only nodes count as trees. A binary operator has its left operand in the first slot and its right
one in the second; a conditional has the condition, the branch and the else branch; a loop over
clauses has its three clauses and then its body.

`Tree.preorder` is the text form of a tree, `Tree.outline` the same tree as indented lines, one for
each node. `Tree.withLevels` numbers the nodes by their distance from the root. A level of the
program is a word, and a sum of words can be too large for one : `Tree.withLevels?` has words for
levels, and `Overflow` tells what becomes of such a sum.
-/

namespace MiniC

/-- A tree, or an empty slot. -/
inductive Tree where
  | empty
  | node (label : String) (level : Nat) (first second third fourth : Tree)
deriving DecidableEq, Inhabited, Repr

namespace Tree

/-- Whether there is no tree. -/
def isEmpty : Tree → Bool
  | empty => true
  | node .. => false

/-- A node without children. -/
def leaf (label : String) : Tree := node label 0 empty empty empty empty

/-- The node whose slots are filled by `children` in order; it keeps at most four of them. -/
def ofChildren (label : String) (children : List Tree) : Tree :=
  node label 0 (children.getD 0 empty) (children.getD 1 empty) (children.getD 2 empty)
    (children.getD 3 empty)

/-- The four slots of a node. -/
def slots : Tree → List Tree
  | empty => []
  | node _ _ a b c d => [a, b, c, d]

/-- The tree in a slot, if there is one. -/
def child? (t : Tree) (slot : Nat) : Option Tree :=
  t.slots[slot]?.filter fun c => !c.isEmpty

/-- The children of a node, in the order of their slots. -/
def children (t : Tree) : List Tree := t.slots.filter fun c => !c.isEmpty

/-- Whether a node has no children. -/
def isLeaf (t : Tree) : Bool := t.slots.all isEmpty

/-- The level of a node. -/
def level : Tree → Nat
  | empty => 0
  | node _ level .. => level

/-- The tree with level `level` at its root and one more at every step down, where levels are
numbers. From a small `level` on, no tree that fits into the memory has one that is too large for a
word. -/
def withLevels (t : Tree) (level : Nat) : Tree :=
  match t with
  | empty => empty
  | node label _ a b c d =>
    node label level (a.withLevels (level + 1)) (b.withLevels (level + 1))
      (c.withLevels (level + 1)) (d.withLevels (level + 1))

/-- What becomes of a sum that is too large for a word. With checks the program stops, and without
them the sum wraps around to zero. -/
inductive Overflow where
  | wraps
  | stops
deriving DecidableEq, Repr

/-- One more than a level, which is a word of 64 bits. -/
def Overflow.next? (o : Overflow) (level : UInt64) : Option UInt64 :=
  match o with
  | wraps => some (level + 1)
  | stops => if level.toNat + 1 < UInt64.size then some (level + 1) else none

/-- The tree with level `level?` at its root and one more at every step down, in words. There is
none if the program stops at a sum on the way, and it makes a sum for trees only : an empty slot
needs no level. -/
def withLevels? (o : Overflow) (t : Tree) (level? : Option UInt64) : Option Tree :=
  match t with
  | empty => some empty
  | node label _ a b c d => do
    let level ← level?
    let below? := o.next? level
    return node label level.toNat (← a.withLevels? o below?) (← b.withLevels? o below?)
      (← c.withLevels? o below?) (← d.withLevels? o below?)

/-- The number of nodes on the longest way down. -/
def height : Tree → Nat
  | empty => 0
  | node _ _ a b c d => 1 + max (max a.height b.height) (max c.height d.height)

/-- The words of the text form : a leaf is its label, any other node its label and its children
between parentheses. -/
def words : Tree → List String
  | empty => []
  | node label level a b c d =>
    if (node label level a b c d).isLeaf then [label]
    else "(" :: label :: (a.words ++ b.words ++ c.words ++ d.words ++ [")"])

/-- The text form of a tree, its words with a blank between them. -/
def preorder (t : Tree) : String := " ".intercalate t.words

/-- The level and label of every node, a node before its children. -/
def rows : Tree → List (Nat × String)
  | empty => []
  | node label level a b c d => (level, label) :: (a.rows ++ b.rows ++ c.rows ++ d.rows)

/-- The label of a node behind two blanks for every level. -/
def outlineLine (base : Nat) (row : Nat × String) : String :=
  String.ofList (List.replicate (2 * (row.1 - base)) ' ') ++ row.2

/-- The nodes as lines, each indented by its level below that of the root. -/
def outline (t : Tree) : List String := t.rows.map (outlineLine t.level)

/-- The labels of the nodes, a node behind its children. -/
def postorder : Tree → List String
  | empty => []
  | node label _ a b c d => a.postorder ++ b.postorder ++ c.postorder ++ d.postorder ++ [label]

end Tree

end MiniC
