import Mathlib
import MiniC.Proofs.Outcome
import MiniC.Proofs.Renaming.Analyzer

/-!
# An analysis does not depend on the names

Let `f` replace the names in a stream of events, injectively and so that `main` stays. Then the
analysis is the same but for these names (`EventStream.analyze_rename`) : its tree is the shape that
the stream has anyway, with `f` applied to the names in it, the report has the same rows under the
new names, and the diagnostics quote the new names. No name is special but `main`, so a function
called `if` or `stmt` is analysed like any other.

The step is `Analyzer.Renamed.apply`. As the shapes of the trees are made from the rules and the
problems alone, they follow the renaming too (`Rule.reshape_rename`).
-/

namespace MiniC

/-- The error with the name replaced that was found. -/
def SyntaxError.rename (f : String → String) (e : SyntaxError) : SyntaxError :=
  { e with fault := e.fault.rename f }

/-- The stream with every name replaced. -/
def EventStream.rename (f : String → String) (s : EventStream) : EventStream :=
  ⟨s.events.map (Event.rename f), s.failure.map (SyntaxError.rename f)⟩

/-- The shape with the names in it replaced. -/
def Shape.rename (f : String → String) : Shape → Shape
  | empty => empty
  | node caption a b c d =>
    node (caption.rename f) (a.rename f) (b.rename f) (c.rename f) (d.rename f)

/-- The failures are the same but for names. -/
inductive Failure.Renamed (f : String → String) : Failure → Failure → Prop
  | syntaxError (error : SyntaxError) :
    Renamed f (.syntaxError error) (.syntaxError (error.rename f))
  | underflow (caption : Caption) (needed available : Nat) :
    Renamed f (.stack (.underflow caption.label needed available))
      (.stack (.underflow (caption.rename f).label needed available))
  | unbalanced (depth : Nat) : Renamed f (.stack (.unbalanced depth)) (.stack (.unbalanced depth))

/-- The analyses are the same but for names, apart from their trees. -/
structure Analysis.Renamed (f : String → String) (a b : Analysis) : Prop where
  report : b.report = a.report.rename f
  diagnostics : b.diagnostics = a.diagnostics.map (Diagnostic.rename f)
  failure : Option.Rel (Failure.Renamed f) a.failure b.failure

variable {f : String → String}

/-! ## Shapes -/

theorem Shape.rename_ofChildren (f : String → String) (caption : Caption) (shapes : List Shape) :
    (ofChildren caption shapes).rename f =
      ofChildren (caption.rename f) (shapes.map (Shape.rename f)) := by
  have hslot (n : Nat) :
      (shapes.map (Shape.rename f)).getD n empty = (shapes.getD n empty).rename f :=
    List.getD_map shapes empty (Shape.rename f)
  simp only [ofChildren, Shape.rename, hslot]

theorem Shape.single?_map (f : String → String) (shapes : List Shape) :
    single? (shapes.map (Shape.rename f)) = (single? shapes).map (Shape.rename f) := by
  match shapes with
  | [] | [_] | _ :: _ :: _ => rfl

namespace Rule

theorem caption?_rename (f : String → String) (r : Rule) :
    (r.rename f).caption? = r.caption?.map (Caption.rename f) := by
  cases r <;> rfl

theorem arity_rename (f : String → String) (r : Rule) : (r.rename f).arity = r.arity := by
  cases r <;> rfl

theorem join_rename (f : String → String) (r : Rule) (shapes : List Shape) :
    (r.rename f).join (shapes.map (Shape.rename f)) = (r.join shapes).map (Shape.rename f) := by
  unfold join
  rw [caption?_rename, arity_rename]
  cases r.caption? with
  | none => rfl
  | some caption =>
    simp only [Option.map_some, List.map_cons, Shape.rename_ofChildren, List.map_reverse,
      List.map_take, List.map_drop]

theorem rename_eq_binary {r : Rule} {op : BinaryOp} (h : r.rename f = binary op) :
    r = binary op := by
  cases r <;> first | exact h | cases h

/-- An event does to the renamed shapes what it does to the shapes. -/
theorem reshape_rename (f : String → String) (r : Rule) (problems : List Problem)
    (shapes : List Shape) :
    (r.rename f).reshape (problems.map (Problem.rename f)) (shapes.map (Shape.rename f)) =
      (r.reshape problems shapes).map (Shape.rename f) := by
  by_cases hr : ∃ op, r = binary op
  · obtain ⟨op, rfl⟩ := hr
    match problems with
    | [.divisionByZero] =>
      simp only [reshape, List.map_cons, List.map_drop]
      rfl
    | [.invalidOperands _ _] => exact List.map_drop.symm
    | _ :: _ :: _ =>
      have h := join_rename f (binary op) shapes
      simpa [reshape, rename] using h
    | [] | [.syntaxError _] | [.undeclared _] | [.redefinition _] | [.narrowing _ _]
    | [.missingType] | [.notAssignable] => exact join_rename f (binary op) shapes
  · have hr' (op : BinaryOp) : r.rename f ≠ binary op := fun h => hr ⟨op, rename_eq_binary h⟩
    rw [reshape_of_quiet fun op h => (hr' op h).elim,
      reshape_of_quiet fun op h => (hr ⟨op, h⟩).elim, join_rename]

end Rule

/-! ## Whole analyses -/

theorem Analyzer.failure_finish_eq (a : Analyzer) (failure : Option Failure) :
    (a.finish failure).failure =
      if a.stackDepth = 1 then failure
      else some (failure.getD (.stack (.unbalanced a.stackDepth))) := by
  rw [stackDepth_eq]
  unfold finish TreeStack.root?
  match a.trees.trees with
  | [] | [_] => rfl
  | _ :: _ :: trees => rw [List.length_cons, List.length_cons, if_neg (by omega)]; rfl

namespace Analyzer.Renamed

variable {a b c d : Analyzer}

/-- Two steps find the same problems but for names. -/
theorem found (h : a.Renamed f b) (hc : c.Renamed f d) :
    b.found d = (a.found c).map (Problem.rename f) := by
  simp only [Analyzer.found, h.diagnostics, hc.diagnostics, List.length_map, ← List.map_drop,
    List.map_map]
  rfl

theorem shapes? (hf : Function.Injective f) (h : a.Renamed f b) (events : List Event)
    (shapes : List Shape) :
    b.shapes? (events.map (Event.rename f)) (shapes.map (Shape.rename f)) =
      (a.shapes? events shapes).map (List.map (Shape.rename f)) := by
  induction events generalizing a b shapes with
  | nil => rfl
  | cons event events ih =>
    have happly := h.apply hf event
    rw [List.map_cons, Analyzer.shapes?, Analyzer.shapes?]
    generalize a.apply event = x at happly
    generalize b.apply (event.rename f) = y at happly
    cases happly with
    | ok hc =>
      dsimp only
      rw [h.found hc, ← ih hc, ← Rule.reshape_rename]
      rfl
    | underflow needed available => rfl

theorem finish (hf : Function.Injective f) (hmain : f "main" = "main") (h : a.Renamed f b)
    {failure failure' : Option Failure} (hr : Option.Rel (Failure.Renamed f) failure failure') :
    (a.finish failure).Renamed f (b.finish failure') where
  report := by rw [report_finish, report_finish, h.symbols.report hf hmain]
  diagnostics := by rw [diagnostics_finish, diagnostics_finish, h.diagnostics]
  failure := by
    have hd : b.stackDepth = a.stackDepth := h.depth
    rw [failure_finish_eq, failure_finish_eq, hd]
    split
    · exact hr
    · cases hr with
      | none => exact .some (.unbalanced _)
      | some hr => exact .some hr

/-- Events with their names replaced are analysed alike, from states that are the same but for
names. -/
theorem run (hf : Function.Injective f) (hmain : f "main" = "main") (h : a.Renamed f b)
    (events : List Event) (failure : Option SyntaxError) :
    (a.run events failure).Renamed f
      (b.run (events.map (Event.rename f)) (failure.map (SyntaxError.rename f))) := by
  induction events generalizing a b with
  | nil =>
    cases failure with
    | none => exact h.finish hf hmain .none
    | some e =>
      have he := h.report e.location.line (.syntaxError e.fault)
      exact he.finish hf hmain (.some (.syntaxError e))
  | cons event events ih =>
    have happly := h.apply hf event
    rw [List.map_cons, Analyzer.run, Analyzer.run]
    generalize a.apply event = x at happly
    generalize b.apply (event.rename f) = y at happly
    cases happly with
    | ok hc => exact ih hc
    | underflow needed available =>
      exact ⟨h.symbols.report hf hmain, h.diagnostics, .some (.underflow _ needed available)⟩

theorem start (f : String → String) : Analyzer.start.Renamed f Analyzer.start :=
  ⟨.empty f, rfl, rfl, rfl, rfl, rfl⟩

end Analyzer.Renamed

/-- As many errors and the same kind of failure make the same status. -/
theorem Analysis.Renamed.exitCode {a b : Analysis} (h : a.Renamed f b) :
    b.exitCode = a.exitCode := by
  have hp (problem : Problem) : (problem.rename f).severity = problem.severity := by
    cases problem <;> rfl
  have hd (d : Diagnostic) : (d.rename f).isError = d.isError :=
    congrArg (fun severity => decide (severity = Severity.error)) (hp d.problem)
  have he : b.errorCount = a.errorCount := by
    rw [errorCount, h.diagnostics, List.countP_map]
    exact List.countP_congr fun d _ => by rw [Function.comp_apply, hd]
  have hf : b.failure.any Failure.isStackError = a.failure.any Failure.isStackError := by
    have hrel := h.failure
    generalize a.failure = x at hrel ⊢
    generalize b.failure = y at hrel ⊢
    cases hrel with
    | none => rfl
    | some hr => cases hr <;> rfl
  rw [Analysis.exitCode, he, hf]
  rfl

theorem EventStream.shape?_rename (hf : Function.Injective f) (s : EventStream) :
    (s.rename f).shape? = s.shape?.map (Shape.rename f) := by
  have h := (Analyzer.Renamed.start f).shapes? hf s.events []
  rw [List.map_nil] at h
  rw [shape?, rename, h, shape?]
  cases Analyzer.start.shapes? s.events [] with
  | none => rfl
  | some shapes => exact Shape.single?_map f shapes

/-- A stream with its names replaced has the same analysis, with its names replaced. -/
theorem EventStream.analyze_rename (s : EventStream) (hf : Function.Injective f)
    (hmain : f "main" = "main") :
    s.analyze.root = s.shape?.map (fun shape => shape.tree.withLevels 1) ∧
      (s.rename f).analyze.root =
        s.shape?.map (fun shape => (shape.rename f).tree.withLevels 1) ∧
      s.analyze.Renamed f (s.rename f).analyze ∧
      (s.rename f).analyze.exitCode = s.analyze.exitCode := by
  have hr : s.analyze.Renamed f (s.rename f).analyze :=
    (Analyzer.Renamed.start f).run hf hmain s.events s.failure
  refine ⟨s.root_analyze, ?_, hr, hr.exitCode⟩
  rw [root_analyze, shape?_rename hf, Option.map_map]
  rfl

/-- A function that is called `if`, as no text can have it, stands in the tree like any other. -/
theorem analyze_rename_to_if :
    ∃ f : String → String, Function.Injective f ∧ f "main" = "main" ∧ f "f" = "if" ∧
      (parse "f()\x7bx;\x7d").analyze.Renamed f ((parse "f()\x7bx;\x7d").rename f).analyze ∧
      ((parse "f()\x7bx;\x7d").rename f).analyze.preorder = some "( if x )" := by
  let f : String → String := Equiv.swap "f" "if"
  have hf : Function.Injective f := (Equiv.swap "f" "if").injective
  have hmain : f "main" = "main" := by decide
  obtain ⟨-, hroot, hr, -⟩ := (parse "f()\x7bx;\x7d").analyze_rename hf hmain
  have hif : f "f" = "if" := by decide
  have hx : f "x" = "x" := by decide
  refine ⟨f, hf, hmain, hif, hr, ?_⟩
  have hs : (parse "f()\x7bx;\x7d").shape? =
      some (.node (.name "f") (.leaf (.name "x")) .empty .empty .empty) := by cbv
  rw [Analysis.preorder, hroot, hs]
  simp only [Option.map_some, Shape.rename, Shape.leaf, Caption.rename, hif, hx]
  cbv

end MiniC
