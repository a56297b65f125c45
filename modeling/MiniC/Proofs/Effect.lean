import MiniC.Proofs.After
import MiniC.Proofs.Arity
import MiniC.Proofs.Scoping

/-!
# What one event can do

`Analyzer.Touches` lists what completing a rule can do to the symbols, and `Rule.Reports` the
problems it can report. `Analyzer.apply_touches` and `Analyzer.apply_adds` say that an event which
is applied does nothing else : the symbols change as listed, and the diagnostics grow by such
problems, all on the line of the event.
-/

namespace MiniC

namespace Rule

/-- Whether the rule leaves the symbols alone. -/
def isIdle : Rule → Bool
  | openScope | closeScope | functionDeclarator _ _ | parameter _ _ | functionDefinition _ _
  | declTarget _ | declarator _ | identifier _ => false
  | _ => true

/-- A rule that leaves the symbols alone declares and uses no name and keeps the scopes. -/
theorem idle {r : Rule} (h : r.isIdle = true) :
    r.declares = none ∧ (∀ name, r ≠ identifier name) ∧ ∀ depth, r.depthBehind depth = depth := by
  cases r
  case openScope | closeScope | functionDeclarator | parameter | functionDefinition | declTarget
      | declarator | identifier => cases h
  all_goals exact ⟨rfl, nofun, fun _ => rfl⟩

/-- The problems that completing a rule can find. -/
inductive Reports : Rule → Problem → Prop
  | missingType (name : String) : Reports (functionDeclarator name false) .missingType
  | redefinition {r : Rule} {name : String} (h : r.declares = some name) :
    Reports r (.redefinition name)
  | undeclared (name : String) : Reports (identifier name) (.undeclared name)
  | divisionByZero : Reports (binary .div) .divisionByZero
  | invalidOperands (l r : DataType) : Reports (binary .mod) (.invalidOperands l r)
  | narrowing (op : AssignOp) (source target : DataType) :
    Reports (assign op) (.narrowing source target)
  | narrowingInit (name : String) (source target : DataType) :
    Reports (initDeclarator name) (.narrowing source target)
  | compoundDivision (op : AssignOp) : Reports (assign op) .divisionByZero
  | compoundOperands (op : AssignOp) (l r : DataType) : Reports (assign op) (.invalidOperands l r)
  | notAssignable (op : AssignOp) : Reports (assign op) .notAssignable

/-- Only a use of a name finds it undeclared. -/
theorem Reports.eq_identifier {r : Rule} {name : String} (h : r.Reports (.undeclared name)) :
    r = identifier name := by
  cases h
  rfl

end Rule

namespace Analyzer

/-- What completing a rule can do to the symbols. -/
inductive Touches (a : Analyzer) (line : Nat) : Rule → SymbolTable → Prop
  | openScope : Touches a line .openScope a.symbols.openScope
  | closeScope : Touches a line .closeScope a.symbols.closeScope
  | functionDefinition (name : String) (typed : Bool) :
    Touches a line (.functionDefinition name typed) a.symbols.closeScope
  | functionDeclarator (name : String) (typed : Bool) (type : DataType) :
    Touches a line (.functionDeclarator name typed)
      (a.symbols.declare name .function type none line).2.openScope
  | parameter (name : String) (type : DataType) :
    Touches a line (.parameter name type) (a.symbols.declare name .param type none line).2
  | declTarget (name : String) : Touches a line (.declTarget name)
      (a.symbols.declare name .identifier a.declaredType none line).2
  | declarator (name : String) : Touches a line (.declarator name)
      (a.symbols.declare name .identifier a.declaredType none line).2
  | identifier (name : String) :
    Touches a line (.identifier name) (a.symbols.resolve name line).2
  /-- The symbol that the left operand names gets another value. -/
  | assign (op : AssignOp) {rhs lhs : Operand} {rest : List Operand}
      (ho : a.operands = rhs :: lhs :: rest) {id : SymbolId} (hi : lhs.symbol = some id)
      (value : Option Value) : Touches a line (.assign op) (a.symbols.assign id value)
  /-- The latest variable that waits for its initializer gets its value. -/
  | initDeclarator (name : String) {declared : Declared} {pending : List Declared}
      (hp : a.pending = declared :: pending) (value : Option Value) :
    Touches a line (.initDeclarator name) (a.symbols.assign declared.id value)
  | idle {r : Rule} (h : r.isIdle = true) : Touches a line r a.symbols

variable {a b : Analyzer}

/-! ## Steps on the stacks leave the rest alone -/

theorem exists_of_node {label : String} {arity : Nat} {operand : Operand}
    (h : a.node label arity operand = .ok b) :
    ∃ trees operands, b = { a with trees, operands } :=
  ⟨_, _, (node_eq_ok_iff.1 h).2.2⟩

theorem exists_of_discard {label : String} {count : Nat} (h : a.discard label count = .ok b) :
    ∃ trees operands, b = { a with trees, operands } :=
  ⟨_, _, (discard_eq_ok_iff.1 h).2⟩

@[simp] theorem symbols_reportIf (a : Analyzer) (c : Bool) (line : Nat) (problem : Problem) :
    (a.reportIf c line problem).symbols = a.symbols := by
  cases c <;> rfl

@[simp] theorem symbols_warnNarrowing (a : Analyzer) (target : DataType)
    (source : Option DataType) (line : Nat) :
    (a.warnNarrowing target source line).symbols = a.symbols := by
  cases source with
  | none => rfl
  | some source => exact symbols_reportIf a _ line _

@[simp] theorem symbols_compoundSource (a : Analyzer) (op : BinaryOp) (lhs rhs : Operand)
    (line : Nat) : (a.compoundSource op lhs rhs line).2.symbols = a.symbols := by
  unfold compoundSource
  (repeat' split) <;> rfl

theorem symbols_declare (a : Analyzer) (name : String) (kind : SymbolKind) (type : DataType)
    (line : Nat) : (a.declare name kind type line).2.symbols =
      (a.symbols.declare name kind type none line).2 := by
  simp only [declare]
  split <;> rfl

theorem symbols_node {label : String} {arity : Nat} {operand : Operand}
    (h : a.node label arity operand = .ok b) : b.symbols = a.symbols := by
  obtain ⟨trees, operands, rfl⟩ := exists_of_node h
  rfl

theorem symbols_discard {label : String} {count : Nat} (h : a.discard label count = .ok b) :
    b.symbols = a.symbols := by
  obtain ⟨trees, operands, rfl⟩ := exists_of_discard h
  rfl

/-! ## The symbols -/

theorem symbols_store {label : String} {id : SymbolId} {type : DataType} {source : Operand}
    {line : Nat} (h : a.store label id type source line = .ok b) :
    ∃ value, b.symbols = a.symbols.assign id value := by
  have hs := symbols_node h
  dsimp only at hs
  rw [symbols_warnNarrowing] at hs
  exact ⟨_, hs⟩

theorem symbols_binary {op : BinaryOp} {line : Nat} (h : a.binary op line = .ok b) :
    b.symbols = a.symbols := by
  unfold binary at h
  split at h
  · split at h
    · obtain ⟨c, hd, hb⟩ := exists_of_bind_ok h
      obtain rfl := Except.ok.inj hb
      exact (symbols_discard hd).trans rfl
    · split at h
      · exact (symbols_discard h).trans rfl
      · exact symbols_node h
  · cases h

/-- A symbol without a type keeps its value. -/
theorem symbols_assignTo {op : AssignOp} {id : SymbolId} {source : Operand} {line : Nat}
    (h : a.assignTo op id source line = .ok b) :
    b.symbols = a.symbols ∨ ∃ value, b.symbols = a.symbols.assign id value := by
  unfold assignTo at h
  split at h
  · exact .inr (symbols_store h)
  · exact .inl (symbols_node h)

theorem assign_touches {op : AssignOp} {line : Nat} (h : a.assign op line = .ok b) :
    Touches a line (.assign op) b.symbols := by
  have hidle : ∀ {c : Analyzer}, c.symbols = a.symbols → Touches a line (.assign op) c.symbols :=
    fun hc => hc ▸ .idle rfl
  unfold assign at h
  split at h
  · next rhs lhs rest ho =>
    split at h
    · exact hidle ((symbols_node h).trans rfl)
    · next id hi =>
      have hto : ∀ {c : Analyzer} {source : Operand}, c.symbols = a.symbols →
          c.assignTo op id source line = .ok b → Touches a line (.assign op) b.symbols := by
        intro c source hc hb
        rcases symbols_assignTo hb with hs | ⟨value, hs⟩
        · exact hidle (hs.trans hc)
        · rw [hs, hc]
          exact .assign op ho hi value
      split at h
      · exact hto rfl h
      · exact hto (symbols_compoundSource ..) h
  · cases h

/-- An initializer gives its value to the latest variable that waits for one, unless that is a
redefinition. -/
theorem symbols_initDeclarator {line : Nat} (h : a.initDeclarator line = .ok b) :
    b.symbols = a.symbols ∨ ∃ declared pending value, a.pending = declared :: pending ∧
      (∀ id, declared ≠ .redefinition id) ∧ b.symbols = a.symbols.assign declared.id value := by
  unfold initDeclarator at h
  split at h
  · dsimp only at h
    split at h
    · exact .inl (symbols_node h)
    · exact .inl ((symbols_node h).trans rfl)
    · next declared pending hne hp =>
      obtain ⟨value, hs⟩ := symbols_store h
      exact .inr ⟨declared, pending, value, hp, fun id he => hne id he, hs⟩
  · cases h

theorem initDeclarator_touches {name : String} {line : Nat} (h : a.initDeclarator line = .ok b) :
    Touches a line (.initDeclarator name) b.symbols := by
  rcases symbols_initDeclarator h with hs | ⟨declared, pending, value, hp, -, hs⟩
  · exact hs ▸ .idle rfl
  · rw [hs]
    exact .initDeclarator name hp value

/-- An event does to the symbols what its rule can do to them. -/
theorem apply_touches {event : Event} (h : a.apply event = .ok b) :
    Touches a event.location.line event.rule b.symbols := by
  have hidle : ∀ {r : Rule}, r.isIdle = true → b.symbols = a.symbols →
      Touches a event.location.line r b.symbols := fun hr hs => hs ▸ .idle hr
  obtain ⟨rule, loc⟩ := event
  cases rule <;> dsimp only [apply] at h
  case openScope =>
    obtain rfl := Except.ok.inj h
    exact .openScope
  case closeScope =>
    obtain rfl := Except.ok.inj h
    exact .closeScope
  case functionDeclarator name typed =>
    obtain rfl := Except.ok.inj h
    simp only [functionDeclarator, symbols_declare, symbols_reportIf]
    exact .functionDeclarator name typed _
  case parameter name type =>
    obtain rfl := Except.ok.inj h
    rw [symbols_declare]
    exact .parameter name type
  case functionDefinition name typed =>
    obtain ⟨c, hn, hb⟩ := exists_of_bind_ok h
    obtain rfl := Except.ok.inj hb
    dsimp only
    rw [symbols_node hn]
    exact .functionDefinition name typed
  case declTarget name =>
    obtain rfl := Except.ok.inj h
    rw [declTarget_eq]
    simp only [leaf, symbols_declare]
    exact .declTarget name
  case declarator name =>
    obtain rfl := Except.ok.inj h
    rw [declarator_eq]
    simp only [leaf, symbols_declare]
    exact .declarator name
  case identifier name =>
    obtain rfl := Except.ok.inj h
    rw [identifier_eq]
    simp only [leaf, symbols_reportIf]
    exact .identifier name
  case initDeclarator name => exact initDeclarator_touches h
  case assign op => exact assign_touches h
  case binary op => exact hidle rfl (symbols_binary h)
  case typeSpecifier | declaration | literal | emptyStatement | emptyBlock =>
    obtain rfl := Except.ok.inj h
    exact hidle rfl rfl
  case unary | postfixed | ternary | comma =>
    split at h
    · exact hidle rfl (symbols_node h)
    · cases h
  case sequence | ifThen | ifElse | whileLoop | forLoop => exact hidle rfl (symbols_node h)
  case returned value =>
    cases value
    case false =>
      obtain rfl := Except.ok.inj h
      exact hidle rfl rfl
    case true => exact hidle rfl (symbols_node h)

/-! ## The diagnostics -/

/-- The diagnostics of `a` grow to those of `b` by problems of the rule on the line. -/
def Adds (r : Rule) (line : Nat) (a b : Analyzer) : Prop :=
  ∃ more, b.diagnostics = a.diagnostics ++ more ∧
    ∀ d ∈ more, d.line = line ∧ r.Reports d.problem

variable {c : Analyzer} {r : Rule} {line : Nat}

theorem adds_of_eq (h : b.diagnostics = a.diagnostics) : Adds r line a b :=
  ⟨[], by rw [h, List.append_nil], by simp⟩

theorem Adds.trans (h : Adds r line a b) (h' : Adds r line b c) : Adds r line a c := by
  obtain ⟨more, hb, hm⟩ := h
  obtain ⟨more', hc, hm'⟩ := h'
  refine ⟨more ++ more', by rw [hc, hb, List.append_assoc], fun d hd => ?_⟩
  rcases List.mem_append.1 hd with hd | hd
  · exact hm d hd
  · exact hm' d hd

/-- Only the diagnostics of the first state matter. -/
theorem Adds.of_eq (h : Adds r line b c) (hb : b.diagnostics = a.diagnostics) :
    Adds r line a c := (adds_of_eq hb).trans h

theorem adds_report {problem : Problem} (h : r.Reports problem) :
    Adds r line a (a.report line problem) :=
  ⟨[⟨line, problem⟩], rfl, by simpa using h⟩

theorem adds_reportIf {condition : Bool} {problem : Problem}
    (h : condition = true → r.Reports problem) :
    Adds r line a (a.reportIf condition line problem) := by
  cases condition with
  | false => exact adds_of_eq rfl
  | true => exact adds_report (h rfl)

theorem adds_declare {name : String} (h : r.declares = some name) (kind : SymbolKind)
    (type : DataType) : Adds r line a (a.declare name kind type line).2 := by
  simp only [declare]
  split
  · exact adds_report (.redefinition h)
  · exact adds_of_eq rfl

theorem adds_warnNarrowing (h : ∀ source target, r.Reports (.narrowing source target))
    (target : DataType) (source : Option DataType) :
    Adds r line a (a.warnNarrowing target source line) := by
  cases source with
  | none => exact adds_of_eq rfl
  | some source => exact adds_reportIf fun _ => h source target

theorem adds_node {label : String} {arity : Nat} {operand : Operand}
    (h : a.node label arity operand = .ok b) : Adds r line a b := by
  obtain ⟨trees, operands, rfl⟩ := exists_of_node h
  exact adds_of_eq rfl

theorem adds_discard {label : String} {count : Nat} (h : a.discard label count = .ok b) :
    Adds r line a b := by
  obtain ⟨trees, operands, rfl⟩ := exists_of_discard h
  exact adds_of_eq rfl

theorem adds_store (hr : ∀ source target, r.Reports (.narrowing source target)) {label : String}
    {id : SymbolId} {type : DataType} {source : Operand}
    (h : a.store label id type source line = .ok b) : Adds r line a b :=
  (adds_warnNarrowing hr type source.type).trans ((adds_node h).of_eq rfl)

theorem adds_assignTo {op : AssignOp} {id : SymbolId} {source : Operand}
    (h : a.assignTo op id source line = .ok b) : Adds (.assign op) line a b := by
  unfold assignTo at h
  split at h
  · exact adds_store (.narrowing op) h
  · exact adds_node h

theorem adds_compoundSource (op : AssignOp) (arithmetic : BinaryOp) (lhs rhs : Operand) :
    Adds (.assign op) line a (a.compoundSource arithmetic lhs rhs line).2 := by
  unfold compoundSource
  split
  · exact adds_report (.compoundOperands op _ _)
  · split
    · exact adds_report (.compoundDivision op)
    · exact adds_of_eq rfl

theorem adds_assign {op : AssignOp} (h : a.assign op line = .ok b) :
    Adds (.assign op) line a b := by
  unfold assign at h
  split at h
  · split at h
    · exact (adds_report (.notAssignable op)).trans (adds_node h)
    · split at h
      · exact adds_assignTo h
      · exact (adds_compoundSource op ..).trans (adds_assignTo h)
  · cases h

theorem adds_binary {op : BinaryOp} (h : a.binary op line = .ok b) :
    Adds (.binary op) line a b := by
  unfold binary at h
  split at h
  · split at h
    · next ho =>
      obtain ⟨rfl, -⟩ := ho
      obtain ⟨c, hd, hb⟩ := exists_of_bind_ok h
      obtain rfl := Except.ok.inj hb
      exact (adds_report .divisionByZero).trans ((adds_discard hd).trans (adds_of_eq rfl))
    · split at h
      · exact (adds_report (.invalidOperands _ _)).trans (adds_discard h)
      · exact adds_node h
  · cases h

theorem adds_initDeclarator {name : String} (h : a.initDeclarator line = .ok b) :
    Adds (.initDeclarator name) line a b := by
  unfold initDeclarator at h
  split at h
  · dsimp only at h
    split at h
    · exact adds_node h
    · exact (adds_node h).of_eq rfl
    · exact (adds_store (.narrowingInit name) h).of_eq rfl
  · cases h

/-- An event reports problems of its rule, on its own line. -/
theorem apply_adds {event : Event} (h : a.apply event = .ok b) :
    Adds event.rule event.location.line a b := by
  obtain ⟨rule, loc⟩ := event
  cases rule <;> dsimp only [apply] at h
  case openScope | closeScope | typeSpecifier | declaration | literal | emptyStatement
      | emptyBlock =>
    obtain rfl := Except.ok.inj h
    exact adds_of_eq rfl
  case functionDeclarator name typed =>
    obtain rfl := Except.ok.inj h
    have hm : Adds (.functionDeclarator name typed) loc.line a
        (a.reportIf (!typed) loc.line .missingType) := by
      refine adds_reportIf fun ht => ?_
      obtain rfl := (Bool.not_eq_true' typed).mp ht
      exact .missingType name
    exact hm.trans ((adds_declare rfl _ _).trans (adds_of_eq rfl))
  case parameter name type =>
    obtain rfl := Except.ok.inj h
    exact adds_declare rfl _ _
  case functionDefinition name typed =>
    obtain ⟨c, hn, hb⟩ := exists_of_bind_ok h
    obtain rfl := Except.ok.inj hb
    exact (adds_node hn).trans (adds_of_eq rfl)
  case declTarget name | declarator name =>
    obtain rfl := Except.ok.inj h
    exact (adds_declare rfl _ _).trans (adds_of_eq rfl)
  case identifier name =>
    obtain rfl := Except.ok.inj h
    rw [identifier_eq]
    have hr : ∀ c : Bool, Adds (.identifier name) loc.line
        { a with symbols := (a.symbols.resolve name loc.line).2 }
        ({ a with symbols := (a.symbols.resolve name loc.line).2 }.reportIf c loc.line
          (.undeclared name)) := fun c => adds_reportIf fun _ => .undeclared name
    exact ((hr _).of_eq rfl).trans (adds_of_eq rfl)
  case initDeclarator name => exact adds_initDeclarator h
  case assign op => exact adds_assign h
  case binary op => exact adds_binary h
  case unary | postfixed | ternary | comma =>
    split at h
    · exact adds_node h
    · cases h
  case sequence | ifThen | ifElse | whileLoop | forLoop => exact adds_node h
  case returned value =>
    cases value
    case false =>
      obtain rfl := Except.ok.inj h
      exact adds_of_eq rfl
    case true => exact adds_node h

end Analyzer

end MiniC
