import Mathlib.Data.List.GetD
import MiniC.Proofs.Postorder

/-!
# The shape of a tree

The label of a node is text, which does not tell a name from a keyword : a function that is called
`if` stands in the tree under the label of a conditional. A `Caption` tells the names apart, and a
`Shape` is a tree with captions in the place of its labels.

An event does to the shapes what it does to the trees on the stack (`Rule.reshape`), so a stream of
events has a shape of its own (`EventStream.shape?`), and the tree of its analysis is that shape
with the captions written out (`EventStream.root_analyze`).
-/

namespace MiniC

/-- What stands at a node of a tree. -/
inductive Caption where
  /-- The name of a function, of an initialised variable, or one that is used. -/
  | name (spelling : String)
  /-- The name of a variable without an initializer. -/
  | declared (spelling : String)
  /-- What is no name : a literal, an operator or a construct. -/
  | fixed (label : String)
deriving DecidableEq, Inhabited

/-- The caption written out. -/
def Caption.label : Caption → String
  | name spelling => spelling
  | declared spelling => "Dc " ++ spelling
  | fixed label => label

/-- A tree with a caption at every node, or an empty slot. -/
inductive Shape where
  | empty
  | node (caption : Caption) (first second third fourth : Shape)
deriving DecidableEq, Inhabited

namespace Shape

/-- A node without children. -/
def leaf (caption : Caption) : Shape := node caption empty empty empty empty

/-- The node whose slots are filled by `children` in order; it keeps at most four of them. -/
def ofChildren (caption : Caption) (children : List Shape) : Shape :=
  node caption (children.getD 0 empty) (children.getD 1 empty) (children.getD 2 empty)
    (children.getD 3 empty)

/-- The tree with its captions written out. -/
def tree : Shape → Tree
  | empty => .empty
  | node caption a b c d => .node caption.label 0 a.tree b.tree c.tree d.tree

theorem tree_ofChildren (caption : Caption) (shapes : List Shape) :
    (ofChildren caption shapes).tree = .ofChildren caption.label (shapes.map tree) := by
  have hslot (n : Nat) : (shapes.map tree).getD n .empty = (shapes.getD n empty).tree :=
    List.getD_map shapes empty tree
  simp only [ofChildren, tree, Tree.ofChildren, hslot]

/-- The only shape of a list. -/
def single? : List Shape → Option Shape
  | [shape] => some shape
  | _ => none

end Shape

/-! ## What an event does -/

namespace Rule

/-- The caption of the subtree that a rule finishes. -/
def caption? : Rule → Option Caption
  | functionDefinition name _ | declTarget name | identifier name => some (.name name)
  | declarator name => some (.declared name)
  | r => r.label?.map .fixed

theorem map_label_caption? (r : Rule) : r.caption?.map Caption.label = r.label? := by
  cases r <;> rfl

/-- The shapes behind a rule that makes one of the latest ones. -/
def join (r : Rule) (shapes : List Shape) : List Shape :=
  match r.caption? with
  | some caption => .ofChildren caption (shapes.take r.arity).reverse :: shapes.drop r.arity
  | none => shapes

/-- The shapes behind an event that found the problems. A division by zero leaves one leaf in the
place of both operands, and of an invalid remainder the right operand goes. -/
def reshape : Rule → List Problem → List Shape → List Shape
  | binary _, [.divisionByZero], shapes =>
    .leaf (.fixed Analyzer.divisionSentinel.text) :: shapes.drop 2
  | binary _, [.invalidOperands _ _], shapes => shapes.drop 1
  | r, _, shapes => r.join shapes

theorem reshape_of_quiet {rule : Rule} {problems : List Problem}
    (h : ∀ op, rule = .binary op → problems = []) (shapes : List Shape) :
    rule.reshape problems shapes = rule.join shapes := by
  unfold reshape
  split
  · exact absurd (h _ rfl) (by simp)
  · exact absurd (h _ rfl) (by simp)
  · rfl

end Rule

namespace Analyzer

variable {a b : Analyzer} {event : Event} {shapes : List Shape}

/-- The trees on the stack are the shapes, written out. -/
def Shows (a : Analyzer) (shapes : List Shape) : Prop := a.trees.trees = shapes.map Shape.tree

theorem Builds.shows (h : Builds a event b) (hs : a.Shows shapes) :
    b.Shows (event.rule.join shapes) := by
  unfold Shows at hs ⊢
  rw [h.2, hs, Rule.build, Rule.join, ← Rule.map_label_caption?]
  cases event.rule.caption? with
  | none => rfl
  | some caption =>
    simp only [Option.map_some, List.map_cons, Shape.tree_ofChildren, List.map_reverse,
      List.map_take, List.map_drop]

/-- An event does to the shapes what `Rule.reshape` says. -/
theorem Makes.shows (h : Makes a event b) (hs : a.Shows shapes) :
    b.Shows (event.rule.reshape (a.found b) shapes) := by
  cases h with
  | builds h hq =>
    rw [Rule.reshape_of_quiet hq]
    exact h.shows hs
  | division op hr hd hn ht =>
    unfold Shows at hs ⊢
    rw [ht, hs, hr, hd, Rule.reshape, List.map_cons, List.map_drop, text_divisionSentinel]
    rfl
  | remainder op hr l r hd hn ht =>
    unfold Shows at hs ⊢
    rw [ht, hs, hr, hd, Rule.reshape, List.map_drop]

/-! ## Whole streams -/

/-- The shapes behind the events, which find `shapes` and are applied from the state `a` on, unless
one of them fails. -/
def shapes? (a : Analyzer) : List Event → List Shape → Option (List Shape)
  | [], shapes => some shapes
  | event :: events, shapes =>
    match a.apply event with
    | .ok b => b.shapes? events (event.rule.reshape (a.found b) shapes)
    | .error _ => none

theorem root_finish (hs : a.Shows shapes) (failure : Option Failure) :
    (a.finish failure).root = (Shape.single? shapes).map fun s => s.tree.withLevels 1 := by
  unfold Shows at hs
  unfold finish TreeStack.root?
  rw [hs]
  match shapes with
  | [] | [_] | _ :: _ :: _ => rfl

theorem root_run (hs : a.Shows shapes) (events : List Event) (failure : Option SyntaxError) :
    (a.run events failure).root =
      ((a.shapes? events shapes).bind Shape.single?).map fun s => s.tree.withLevels 1 := by
  induction events generalizing a shapes with
  | nil =>
    cases failure with
    | none => exact root_finish hs none
    | some e => exact root_finish (a := a.report e.location.line (.syntaxError e.fault)) hs _
  | cons event events ih =>
    rw [run, shapes?]
    cases hb : a.apply event with
    | error e => rfl
    | ok b => exact ih ((apply_makes hb).shows hs)

end Analyzer

/-- The shape that the events build, if they leave exactly one. -/
def EventStream.shape? (s : EventStream) : Option Shape :=
  (Analyzer.start.shapes? s.events []).bind Shape.single?

/-- The tree of an analysis is the shape of the stream, with levels from one on. -/
theorem EventStream.root_analyze (s : EventStream) :
    s.analyze.root = s.shape?.map fun shape => shape.tree.withLevels 1 := by
  have hs : Analyzer.start.Shows [] := rfl
  exact Analyzer.root_run hs s.events s.failure

end MiniC
