import MiniC.Proofs.Renaming.Table
import MiniC.Proofs.Shape

/-!
# An analysis under other names, event by event

`Rule.rename` replaces the name that a rule is about, `Problem.rename` the name that a message
quotes and `Caption.rename` the one that a tree shows. `Analyzer.Renamed f a b` says that two
states are the same but for names, apart from their trees, of which only the number is compared :
a label is spelled like a name or like a construct, and the two cannot be told apart in it.

An event and the event with its name replaced lead from such states to such states, or both lack
subtrees of the construct that they complete (`Analyzer.Renamed.apply`).
-/

namespace MiniC

/-- The rule with its name replaced. -/
def Rule.rename (f : String → String) : Rule → Rule
  | functionDeclarator name typed => functionDeclarator (f name) typed
  | parameter name type => parameter (f name) type
  | functionDefinition name typed => functionDefinition (f name) typed
  | declTarget name => declTarget (f name)
  | initDeclarator name => initDeclarator (f name)
  | declarator name => declarator (f name)
  | identifier name => identifier (f name)
  | r => r

/-- The event with its name replaced. -/
def Event.rename (f : String → String) (e : Event) : Event := { e with rule := e.rule.rename f }

/-- The kind of token with its name replaced. -/
def Token.Kind.rename (f : String → String) : Token.Kind → Token.Kind
  | name text => name (f text)
  | kind => kind

/-- The fault with the name replaced that was found. -/
def SyntaxFault.rename (f : String → String) : SyntaxFault → SyntaxFault
  | unexpected what found => unexpected what (found.map (Token.Kind.rename f))
  | fault => fault

/-- The problem with the quoted name replaced. -/
def Problem.rename (f : String → String) : Problem → Problem
  | syntaxError fault => syntaxError (fault.rename f)
  | undeclared name => undeclared (f name)
  | redefinition name => redefinition (f name)
  | problem => problem

/-- The diagnostic with the quoted name replaced. -/
def Diagnostic.rename (f : String → String) (d : Diagnostic) : Diagnostic :=
  { d with problem := d.problem.rename f }

/-- The caption with its name replaced. -/
def Caption.rename (f : String → String) : Caption → Caption
  | name spelling => name (f spelling)
  | declared spelling => declared (f spelling)
  | caption => caption

namespace Analyzer

/-- The states are the same but for names. Of the trees, the number is. -/
structure Renamed (f : String → String) (a b : Analyzer) : Prop where
  symbols : a.symbols.Renamed f b.symbols
  depth : b.trees.depth = a.trees.depth
  operands : b.operands = a.operands
  diagnostics : b.diagnostics = a.diagnostics.map (Diagnostic.rename f)
  declType : b.declType = a.declType
  pending : b.pending = a.pending

/-- Both steps lead to states that are the same but for names, or both lack subtrees of the
construct with the caption. -/
inductive Agree (f : String → String) (caption : Caption) :
    Except StackError Analyzer → Except StackError Analyzer → Prop
  | ok {a b : Analyzer} (h : a.Renamed f b) : Agree f caption (.ok a) (.ok b)
  | underflow (needed available : Nat) :
    Agree f caption (.error (.underflow caption.label needed available))
      (.error (.underflow (caption.rename f).label needed available))

variable {f : String → String} {a b : Analyzer} {caption : Caption}

theorem Agree.bind {x y : Except StackError Analyzer}
    {g k : Analyzer → Except StackError Analyzer} (h : Agree f caption x y)
    (hg : ∀ a b, Renamed f a b → Agree f caption (g a) (k b)) :
    Agree f caption (x.bind g) (y.bind k) := by
  cases h with
  | ok h => exact hg _ _ h
  | underflow needed available => exact .underflow needed available

namespace Renamed

/-! ## Reports -/

theorem report (h : a.Renamed f b) (line : Nat) (problem : Problem) :
    (a.report line problem).Renamed f (b.report line (problem.rename f)) :=
  { h with diagnostics := by simp [Analyzer.report, h.diagnostics, Diagnostic.rename] }

theorem reportIf (h : a.Renamed f b) (condition : Bool) (line : Nat) (problem : Problem) :
    (a.reportIf condition line problem).Renamed f
      (b.reportIf condition line (problem.rename f)) := by
  cases condition with
  | false => exact h
  | true => exact h.report line problem

theorem warnNarrowing (h : a.Renamed f b) (target : DataType) (source : Option DataType)
    (line : Nat) :
    (a.warnNarrowing target source line).Renamed f (b.warnNarrowing target source line) := by
  cases source with
  | none => exact h
  | some source => exact h.reportIf (source.narrows target) line (.narrowing source target)

/-! ## The stacks -/

theorem leaf (h : a.Renamed f b) (label label' : String) (operand : Operand) :
    (a.leaf label operand).Renamed f (b.leaf label' operand) :=
  { h with
    depth := congrArg Nat.succ h.depth
    operands := congrArg (List.cons operand) h.operands }

/-- A construct that lacks subtrees lacks them under either name. -/
theorem underflow (h : a.Renamed f b) (caption : Caption) (needed : Nat) :
    Agree f caption (.error (a.underflow caption.label needed))
      (.error (b.underflow (caption.rename f).label needed)) := by
  unfold Analyzer.underflow
  rw [h.operands, h.depth]
  exact .underflow needed _

theorem node (h : a.Renamed f b) (caption : Caption) (arity : Nat) (operand : Operand) :
    Agree f caption (a.node caption.label arity operand)
      (b.node (caption.rename f).label arity operand) := by
  have hd : b.trees.trees.length = a.trees.trees.length := h.depth
  unfold Analyzer.node TreeStack.node TreeStack.popMany
  rw [h.operands, hd]
  split
  · exact h.underflow caption arity
  · split
    · exact .underflow arity _
    · exact .ok { h with
        depth := by
          simp only [TreeStack.push, TreeStack.depth, List.length_cons, List.length_drop, hd]
        operands := rfl }

theorem discard (h : a.Renamed f b) (caption : Caption) (count : Nat) :
    Agree f caption (a.discard caption.label count)
      (b.discard (caption.rename f).label count) := by
  have hd : b.trees.trees.length = a.trees.trees.length := h.depth
  unfold Analyzer.discard TreeStack.popMany
  rw [h.operands, hd]
  split
  · exact .underflow count _
  · exact .ok { h with
      depth := by simp only [TreeStack.depth, List.length_drop, hd]
      operands := rfl }

/-! ## Declarations and uses -/

theorem declaredType (h : a.Renamed f b) : b.declaredType = a.declaredType :=
  congrArg (Option.getD · DataType.int) h.declType

variable (hf : Function.Injective f)

include hf

theorem declare (h : a.Renamed f b) (name : String) (kind : SymbolKind) (type : DataType)
    (line : Nat) :
    (b.declare (f name) kind type line).1 = (a.declare name kind type line).1 ∧
      (a.declare name kind type line).2.Renamed f (b.declare (f name) kind type line).2 := by
  obtain ⟨h₁, h₂⟩ := h.symbols.declare hf name kind type none line
  have hs : Renamed f { a with symbols := (a.symbols.declare name kind type none line).2 }
      { b with symbols := (b.symbols.declare (f name) kind type none line).2 } :=
    { h with symbols := h₂ }
  simp only [Analyzer.declare, h₁]
  split
  · exact ⟨rfl, hs.report line (.redefinition name)⟩
  · exact ⟨rfl, hs⟩

theorem functionDeclarator (h : a.Renamed f b) (name : String) (typed : Bool) (line : Nat) :
    (a.functionDeclarator name typed line).Renamed f
      (b.functionDeclarator (f name) typed line) := by
  have hr := h.reportIf (!typed) line .missingType
  obtain ⟨-, hd⟩ := hr.declare hf name .function (if typed then a.declaredType else .int) line
  simp only [Analyzer.functionDeclarator, h.declaredType]
  exact { hd with declType := rfl, symbols := hd.symbols.openScope }

theorem declarator (h : a.Renamed f b) (name : String) (line : Nat) :
    (a.declarator name line).Renamed f (b.declarator (f name) line) := by
  obtain ⟨h₁, h₂⟩ := h.declare hf name .identifier a.declaredType line
  simp only [declarator_eq, h.declaredType, h₁]
  exact h₂.leaf _ _ _

theorem declTarget (h : a.Renamed f b) (name : String) (line : Nat) :
    (a.declTarget name line).Renamed f (b.declTarget (f name) line) := by
  obtain ⟨h₁, h₂⟩ := h.declare hf name .identifier a.declaredType line
  simp only [declTarget_eq, h.declaredType, h₁]
  have hp : Renamed f
      { (a.declare name .identifier a.declaredType line).2 with
        pending := (a.declare name .identifier a.declaredType line).1 ::
          (a.declare name .identifier a.declaredType line).2.pending }
      { (b.declare (f name) .identifier a.declaredType line).2 with
        pending := (a.declare name .identifier a.declaredType line).1 ::
          (b.declare (f name) .identifier a.declaredType line).2.pending } :=
    { h₂ with pending := congrArg (List.cons _) h₂.pending }
  exact hp.leaf _ _ _

theorem identifier (h : a.Renamed f b) (name : String) (line : Nat) :
    (a.identifier name line).Renamed f (b.identifier (f name) line) := by
  obtain ⟨h₁, h₂⟩ := h.symbols.resolve hf name line
  have hs : Renamed f { a with symbols := (a.symbols.resolve name line).2 }
      { b with symbols := (b.symbols.resolve (f name) line).2 } := { h with symbols := h₂ }
  simp only [identifier_eq, h₁, h₂.any_get? (p := Symbol.isTyped) (fun _ => rfl),
    h₂.bind_get? (p := Symbol.type) (fun _ => rfl), h₂.bind_get? (p := Symbol.value) (fun _ => rfl)]
  exact (hs.reportIf _ line (.undeclared name)).leaf _ _ _

omit hf

/-! ## Stores -/

theorem store (h : a.Renamed f b) (label : String) (id : SymbolId) (type : DataType)
    (source : Operand) (line : Nat) :
    Agree f (.fixed label) (a.store label id type source line)
      (b.store label id type source line) := by
  have hw := h.warnNarrowing type source.type line
  have hs : Renamed f
      { a.warnNarrowing type source.type line with
        symbols := (a.warnNarrowing type source.type line).symbols.assign id
          (source.value.map (·.convert type)) }
      { b.warnNarrowing type source.type line with
        symbols := (b.warnNarrowing type source.type line).symbols.assign id
          (source.value.map (·.convert type)) } :=
    { hw with symbols := hw.symbols.assign id _ }
  exact hs.node (.fixed label) 2 _

theorem initDeclarator (h : a.Renamed f b) (line : Nat) :
    Agree f (.fixed "=") (a.initDeclarator line) (b.initDeclarator line) := by
  have hp (pending : List Declared) :
      Renamed f { a with pending } { b with pending, operands := a.operands } :=
    { h with operands := rfl, pending := rfl }
  unfold Analyzer.initDeclarator
  rw [h.operands, h.pending]
  split
  · dsimp only
    split
    · exact h.node (.fixed "=") 2 _
    · exact (hp _).node (.fixed "=") 2 _
    · exact (hp _).store "=" _ _ _ line
  · exact h.underflow (.fixed "=") 2

/-! ## Operators -/

theorem binary (h : a.Renamed f b) (op : BinaryOp) (line : Nat) :
    Agree f (.fixed op.label) (a.binary op line) (b.binary op line) := by
  unfold Analyzer.binary
  rw [h.operands]
  split
  · split
    · refine ((h.report line .divisionByZero).discard (.fixed op.label) 2).bind fun c d hc => ?_
      exact .ok (hc.leaf _ _ _)
    · split
      · exact (h.report line (.invalidOperands _ _)).discard (.fixed BinaryOp.mod.label) 1
      · exact h.node (.fixed _) 2 _
  · exact h.underflow (.fixed op.label) 2

theorem assignTo (h : a.Renamed f b) (op : AssignOp) (id : SymbolId) (source : Operand)
    (line : Nat) : Agree f (.fixed op.label) (a.assignTo op id source line)
      (b.assignTo op id source line) := by
  unfold Analyzer.assignTo
  rw [h.symbols.bind_get? (fun _ => rfl)]
  split
  · exact h.store op.label id _ source line
  · exact h.node (.fixed op.label) 2 .unknown

theorem compoundSource (h : a.Renamed f b) (op : BinaryOp) (lhs rhs : Operand) (line : Nat) :
    (b.compoundSource op lhs rhs line).1 = (a.compoundSource op lhs rhs line).1 ∧
      (a.compoundSource op lhs rhs line).2.Renamed f (b.compoundSource op lhs rhs line).2 := by
  unfold Analyzer.compoundSource
  split
  · exact ⟨rfl, h.report line (.invalidOperands _ _)⟩
  · split
    · exact ⟨rfl, h.report line .divisionByZero⟩
    · exact ⟨rfl, h⟩

theorem assign (h : a.Renamed f b) (op : AssignOp) (line : Nat) :
    Agree f (.fixed op.label) (a.assign op line) (b.assign op line) := by
  unfold Analyzer.assign
  rw [h.operands]
  split
  · next rhs lhs _ _ =>
    dsimp only
    split
    · exact (h.report line .notAssignable).node (.fixed op.label) 2 _
    · next id _ =>
      split
      · exact h.assignTo op id rhs line
      · next arithmetic _ =>
        obtain ⟨h₁, h₂⟩ := h.compoundSource arithmetic lhs rhs line
        rw [h₁]
        exact h₂.assignTo op id _ line
  · exact h.underflow (.fixed op.label) 2

/-! ## One event -/

/-- An event does the same under either name. One that fails lacks subtrees under either. -/
theorem apply (hf : Function.Injective f) (h : a.Renamed f b) (event : Event) :
    Agree f (event.rule.caption?.getD default) (a.apply event) (b.apply (event.rename f)) := by
  obtain ⟨rule, loc⟩ := event
  cases rule <;> dsimp only [Analyzer.apply, Event.rename, Rule.rename]
  case openScope => exact .ok { h with symbols := h.symbols.openScope }
  case closeScope => exact .ok { h with symbols := h.symbols.closeScope hf }
  case typeSpecifier | declaration => exact .ok { h with declType := rfl }
  case functionDeclarator name typed => exact .ok (h.functionDeclarator hf name typed _)
  case parameter name type => exact .ok (h.declare hf name .param type _).2
  case functionDefinition name typed =>
    refine (h.node (.name name) 1 .unknown).bind fun c d hc => ?_
    exact .ok { hc with symbols := hc.symbols.closeScope hf }
  case declTarget name => exact .ok (h.declTarget hf name _)
  case initDeclarator name => exact h.initDeclarator _
  case declarator name => exact .ok (h.declarator hf name _)
  case identifier name => exact .ok (h.identifier hf name _)
  case literal | emptyStatement | emptyBlock => exact .ok (h.leaf _ _ _)
  case binary op => exact h.binary op _
  case assign op => exact h.assign op _
  case unary op | postfixed op =>
    rw [h.operands]
    split
    · exact h.node (.fixed op.label) 1 _
    · exact h.underflow (.fixed op.label) 1
  case ternary =>
    rw [h.operands]
    split
    · exact h.node (.fixed "if") 3 _
    · exact h.underflow (.fixed "if") 3
  case comma =>
    rw [h.operands]
    split
    · exact h.node (.fixed ",") 2 _
    · exact h.underflow (.fixed ",") 2
  case sequence => exact h.node (.fixed "stmt") 2 _
  case ifThen => exact h.node (.fixed "if") 2 _
  case ifElse => exact h.node (.fixed "if") 3 _
  case whileLoop => exact h.node (.fixed "while") 2 _
  case forLoop => exact h.node (.fixed "for") 4 _
  case returned value =>
    cases value with
    | false => exact .ok (h.leaf _ _ _)
    | true => exact h.node (.fixed "return") 1 _

end Renamed

end Analyzer

end MiniC
