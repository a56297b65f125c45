import Mathlib
import MiniC.Proofs.Layout.Parse
import MiniC.Proofs.Arity

/-!
# An analysis is blind to places

An analysis, like a parse, can be put at the first place of a text, with all that it goes through :
the lines of symbols, of diagnostics and of events, and the place of a syntax error. Each step can
be done before or after that (`Analyzer.apply_atStart`), so a whole analysis can too
(`EventStream.analyze_atStart`).

Two sources with the same kinds of tokens therefore have analyses that show the same but for places
(`analyze_sameButPlaces`).
-/

namespace MiniC

/-- The symbol on the first line. -/
def Symbol.atStart (s : Symbol) : Symbol := { s with line := 1 }

/-- The symbols, all on the first line. -/
def SymbolTable.atStart (t : SymbolTable) : SymbolTable :=
  { t with symbols := t.symbols.map Symbol.atStart }

/-- The row with the first line as its line. -/
def Report.Row.atStart (r : Report.Row) : Report.Row := { r with line := 1 }

/-- The rows, all with the first line as their line. -/
def Report.atStart (r : Report) : Report := ⟨r.rows.map Report.Row.atStart⟩

/-- The diagnostic on the first line. -/
def Diagnostic.atStart (d : Diagnostic) : Diagnostic := { d with line := 1 }

/-- The failure at the first place of a text. -/
def Failure.atStart : Failure → Failure
  | syntaxError error => syntaxError error.atStart
  | stack error => stack error

/-- The analysis with all places forgotten. -/
def Analysis.atStart (a : Analysis) : Analysis :=
  ⟨a.root, a.report.atStart, a.diagnostics.map Diagnostic.atStart, a.failure.map Failure.atStart⟩

/-- The state with all places forgotten. -/
def Analyzer.atStart (a : Analyzer) : Analyzer :=
  { a with symbols := a.symbols.atStart, diagnostics := a.diagnostics.map Diagnostic.atStart }

/-! ## Symbols -/

namespace SymbolTable

variable (t : SymbolTable) (id : SymbolId) (name : String) (kind : SymbolKind) (line : Nat)

@[simp] theorem get?_atStart : t.atStart.get? id = (t.get? id).map Symbol.atStart := by
  simp [get?, atStart]

@[simp] theorem size_atStart : t.atStart.symbols.size = t.symbols.size := Array.size_map

theorem atStart_insert (type : Option DataType) (value : Option Value) :
    (t.insert name kind type value line).atStart = t.atStart.insert name kind type value 1 := by
  unfold insert
  simp only [size_atStart]
  simp only [atStart]
  split <;> simp [Array.map_push, Symbol.atStart, depth, chain]

theorem atStart_modify {f g : Symbol → Symbol} (h : ∀ s, (f s).atStart = g s.atStart) :
    (t.modify id f).atStart = t.atStart.modify id g := by
  simp only [atStart, modify, mk.injEq, and_true]
  refine Array.ext (by simp) fun i hi hi' => ?_
  simp only [Array.getElem_map, Array.getElem_modify]
  split
  · exact h _
  · rfl

theorem atStart_resolve : (t.resolve name line).1 = (t.atStart.resolve name 1).1 ∧
    (t.resolve name line).2.atStart = (t.atStart.resolve name 1).2 := by
  have hl : t.atStart.lookup? name = t.lookup? name := rfl
  unfold resolve
  rw [hl]
  cases t.lookup? name with
  | some id =>
    simp only [get?_atStart, Option.any_map]
    exact ⟨rfl, trivial⟩
  | none => simp [atStart_insert]

theorem atStart_declared (s : Symbol) (type : DataType) (value : Option Value) :
    (s.declared type value).atStart = s.atStart.declared type value := by
  unfold Symbol.declared
  split <;> split <;> simp_all [Symbol.atStart, Symbol.isTyped]

theorem atStart_declare (type : DataType) (value : Option Value) :
    (t.declare name kind type value line).1 = (t.atStart.declare name kind type value 1).1 ∧
    (t.declare name kind type value line).2.atStart =
      (t.atStart.declare name kind type value 1).2 := by
  obtain ⟨h₁, h₂⟩ := atStart_resolve t name line
  unfold declare
  generalize t.atStart.resolve name 1 = r' at h₁ h₂ ⊢
  generalize t.resolve name line = r at h₁ h₂ ⊢
  obtain ⟨r, u⟩ := r
  obtain ⟨r', u'⟩ := r'
  dsimp only at h₁ h₂ ⊢
  subst h₁ h₂
  have htyped : (u.atStart.get? r.id).any Symbol.isTyped = (u.get? r.id).any Symbol.isTyped := by
    rw [get?_atStart, Option.any_map]
    rfl
  rw [htyped, size_atStart]
  (repeat' split)
  · exact ⟨rfl, atStart_insert ..⟩
  · exact ⟨rfl, rfl⟩
  · exact ⟨rfl, atStart_modify _ _ fun s => atStart_declared _ type value⟩

@[simp] theorem atStart_assign (value : Option Value) :
    (t.assign id value).atStart = t.atStart.assign id value := by
  refine atStart_modify t id fun s => ?_
  unfold Symbol.assigned
  split <;> simp_all [Symbol.atStart]

@[simp] theorem atStart_openScope : t.openScope.atStart = t.atStart.openScope := rfl

theorem atStart_retire : (t.retire id).atStart = t.atStart.retire id := by
  unfold retire
  rw [get?_atStart]
  cases t.get? id with
  | none => rfl
  | some s =>
    have hm := atStart_modify t id (f := fun s => { s with valid := false })
      (g := fun s => { s with valid := false }) fun s => rfl
    simp only [atStart, modify, mk.injEq, and_true] at hm
    simp only [atStart, modify, hm]
    rfl

@[simp] theorem atStart_closeScope : t.closeScope.atStart = t.atStart.closeScope := by
  have hall (ids : List SymbolId) (t : SymbolTable) :
      (ids.foldl retire t).atStart = ids.foldl retire t.atStart := by
    induction ids generalizing t with
    | nil => rfl
    | cons id ids ih => rw [List.foldl_cons, ih, atStart_retire, List.foldl_cons]
  unfold closeScope
  have hi : t.atStart.inner = t.inner := rfl
  rw [hi]
  split
  · rfl
  · rw [← hall]
    rfl

theorem atStart_report : t.report.atStart = t.atStart.report := by
  simp only [report, Report.atStart, atStart, Array.toList_map, List.filterMap_map,
    List.map_filterMap, Report.mk.injEq]
  congr 1
  funext s
  simp only [Function.comp_apply, Report.Row.ofSymbol?, Symbol.atStart]
  (repeat' split) <;> simp_all [Report.Row.atStart]

end SymbolTable

/-! ## One event -/

namespace Analyzer

variable (a : Analyzer) (line : Nat)

@[simp] theorem symbols_atStart : a.atStart.symbols = a.symbols.atStart := rfl

@[simp] theorem trees_atStart : a.atStart.trees = a.trees := rfl

@[simp] theorem operands_atStart : a.atStart.operands = a.operands := rfl

@[simp] theorem pending_atStart : a.atStart.pending = a.pending := rfl

@[simp] theorem declaredType_atStart : a.atStart.declaredType = a.declaredType := rfl

theorem atStart_report (problem : Problem) :
    (a.report line problem).atStart = a.atStart.report 1 problem := by
  simp [report, atStart, Diagnostic.atStart]

theorem atStart_reportIf (condition : Bool) (problem : Problem) :
    (a.reportIf condition line problem).atStart = a.atStart.reportIf condition 1 problem := by
  cases condition with
  | false => rfl
  | true => exact atStart_report a line problem

theorem atStart_warnNarrowing (target : DataType) (source : Option DataType) :
    (a.warnNarrowing target source line).atStart = a.atStart.warnNarrowing target source 1 := by
  cases source with
  | none => rfl
  | some source => exact atStart_reportIf a line _ _

theorem atStart_leaf (label : String) (operand : Operand) :
    (a.leaf label operand).atStart = a.atStart.leaf label operand := rfl

theorem atStart_node (label : String) (arity : Nat) (operand : Operand) :
    (a.node label arity operand).map atStart = a.atStart.node label arity operand := by
  rw [node, node, operands_atStart, trees_atStart]
  split
  · rfl
  · cases a.trees.node label arity <;> rfl

theorem atStart_discard (label : String) (count : Nat) :
    (a.discard label count).map atStart = a.atStart.discard label count := by
  simp only [discard, trees_atStart]
  cases a.trees.popMany count label <;> rfl

theorem atStart_declare (name : String) (kind : SymbolKind) (type : DataType) :
    (a.declare name kind type line).1 = (a.atStart.declare name kind type 1).1 ∧
    (a.declare name kind type line).2.atStart = (a.atStart.declare name kind type 1).2 := by
  obtain ⟨h₁, h₂⟩ := a.symbols.atStart_declare name kind line type none
  simp only [declare, symbols_atStart, ← h₁, ← h₂]
  split
  · exact ⟨rfl, atStart_report ..⟩
  · exact ⟨rfl, rfl⟩

theorem atStart_functionDeclarator (name : String) (typed : Bool) :
    (a.functionDeclarator name typed line).atStart = a.atStart.functionDeclarator name typed 1 := by
  have hr := a.atStart_reportIf line (!typed) .missingType
  obtain ⟨-, hd⟩ := (a.reportIf (!typed) line .missingType).atStart_declare line name .function
    (if typed then a.declaredType else .int)
  simp only [functionDeclarator, declaredType_atStart, ← hr, ← hd]
  rfl

theorem atStart_declarator (name : String) :
    (a.declarator name line).atStart = a.atStart.declarator name 1 := by
  obtain ⟨h₁, h₂⟩ := a.atStart_declare line name .identifier a.declaredType
  simp only [declarator_eq, declaredType_atStart, ← h₁, ← h₂]
  rfl

theorem atStart_declTarget (name : String) :
    (a.declTarget name line).atStart = a.atStart.declTarget name 1 := by
  obtain ⟨h₁, h₂⟩ := a.atStart_declare line name .identifier a.declaredType
  simp only [declTarget_eq, declaredType_atStart, ← h₁, ← h₂]
  rfl

theorem atStart_identifier (name : String) :
    (a.identifier name line).atStart = a.atStart.identifier name 1 := by
  obtain ⟨h₁, h₂⟩ := a.symbols.atStart_resolve name line
  -- what is read of the symbol is the same at any place
  have hread (s : Option Symbol) :
      (s.map Symbol.atStart).any Symbol.isTyped = s.any Symbol.isTyped ∧
      (s.map Symbol.atStart).bind Symbol.type = s.bind Symbol.type ∧
      (s.map Symbol.atStart).bind Symbol.value = s.bind Symbol.value := by
    cases s <;> exact ⟨rfl, rfl, rfl⟩
  obtain ⟨hi, ht, hv⟩ :=
    hread ((a.symbols.resolve name line).2.get? (a.symbols.resolve name line).1.id)
  simp only [identifier_eq, atStart_leaf, atStart_reportIf, symbols_atStart, ← h₁, ← h₂,
    SymbolTable.get?_atStart, hi, ht, hv]
  rfl

theorem atStart_store (label : String) (id : SymbolId) (type : DataType) (source : Operand) :
    (a.store label id type source line).map atStart = a.atStart.store label id type source 1 := by
  simp only [store, atStart_node, ← atStart_warnNarrowing a line, symbols_atStart,
    ← SymbolTable.atStart_assign]
  rfl

theorem atStart_initDeclarator :
    (a.initDeclarator line).map atStart = a.atStart.initDeclarator 1 := by
  simp only [initDeclarator, operands_atStart, pending_atStart]
  split
  · split
    · exact atStart_node ..
    · exact atStart_node ..
    · exact atStart_store ..
  · rfl

theorem atStart_binary (op : BinaryOp) :
    (a.binary op line).map atStart = a.atStart.binary op 1 := by
  simp only [binary, operands_atStart]
  split
  · split
    · rw [← atStart_report a line, ← atStart_discard]
      cases (a.report line .divisionByZero).discard op.label 2 <;> rfl
    · split
      · rw [← atStart_report a line, atStart_discard]
      · exact atStart_node ..
  · rfl

theorem atStart_assignTo (op : AssignOp) (id : SymbolId) (source : Operand) :
    (a.assignTo op id source line).map atStart = a.atStart.assignTo op id source 1 := by
  have ht : (a.atStart.symbols.get? id).bind Symbol.type =
      (a.symbols.get? id).bind Symbol.type := by
    rw [symbols_atStart, SymbolTable.get?_atStart]
    cases a.symbols.get? id <;> rfl
  simp only [assignTo, ht]
  split
  · exact atStart_store ..
  · exact atStart_node ..

theorem atStart_compoundSource (op : BinaryOp) (lhs rhs : Operand) :
    (a.compoundSource op lhs rhs line).1 = (a.atStart.compoundSource op lhs rhs 1).1 ∧
    (a.compoundSource op lhs rhs line).2.atStart = (a.atStart.compoundSource op lhs rhs 1).2 := by
  unfold compoundSource
  split
  · exact ⟨rfl, atStart_report ..⟩
  · split
    · exact ⟨rfl, atStart_report ..⟩
    · exact ⟨rfl, rfl⟩

theorem atStart_assign (op : AssignOp) :
    (a.assign op line).map atStart = a.atStart.assign op 1 := by
  simp only [assign, operands_atStart]
  split
  · next rhs lhs _ _ =>
    split
    · rw [atStart_node, atStart_report]
    · split
      · exact atStart_assignTo ..
      · next arithmetic _ =>
        obtain ⟨h₁, h₂⟩ := a.atStart_compoundSource line arithmetic lhs rhs
        rw [← h₁, ← h₂, atStart_assignTo]
  · rfl

/-- An event does the same to the state, whatever the places. -/
theorem apply_atStart (event : Event) :
    (a.apply event).map atStart = a.atStart.apply event.atStart := by
  obtain ⟨rule, loc⟩ := event
  cases rule <;> dsimp only [apply, Event.atStart, Location.start, operands_atStart]
  case openScope | typeSpecifier | declaration | literal | emptyStatement | emptyBlock => rfl
  case closeScope => exact congrArg Except.ok (by simp [atStart])
  case functionDeclarator name typed =>
    exact congrArg Except.ok (atStart_functionDeclarator ..)
  case parameter name type => exact congrArg Except.ok (atStart_declare ..).2
  case functionDefinition name typed =>
    rw [← atStart_node]
    cases a.node name 1 .unknown with
    | error e => rfl
    | ok b => exact congrArg Except.ok (by simp [atStart])
  case declTarget name => exact congrArg Except.ok (atStart_declTarget ..)
  case declarator name => exact congrArg Except.ok (atStart_declarator ..)
  case identifier name => exact congrArg Except.ok (atStart_identifier ..)
  case initDeclarator name => exact atStart_initDeclarator ..
  case binary op => exact atStart_binary ..
  case assign op => exact atStart_assign ..
  case unary | postfixed | ternary | comma =>
    split
    · exact atStart_node ..
    · rfl
  case sequence | ifThen | ifElse | whileLoop | forLoop => exact atStart_node ..
  case returned value =>
    cases value with
    | false => rfl
    | true => exact atStart_node ..

/-! ## Whole analyses -/

theorem atStart_finish (failure : Option Failure) :
    (a.finish failure).atStart = a.atStart.finish (failure.map Failure.atStart) := by
  simp only [finish, trees_atStart]
  split <;> simp only [Analysis.atStart, SymbolTable.atStart_report] <;> cases failure <;> rfl

theorem atStart_abort (error : StackError) : (a.abort error).atStart = a.atStart.abort error := by
  simp only [abort, Analysis.atStart, SymbolTable.atStart_report]
  rfl

theorem atStart_run (events : List Event) (failure : Option SyntaxError) :
    (a.run events failure).atStart =
      a.atStart.run (events.map Event.atStart) (failure.map SyntaxError.atStart) := by
  induction events generalizing a with
  | nil =>
    cases failure with
    | none => exact atStart_finish a none
    | some e =>
      simp only [run, atStart_finish, atStart_report]
      rfl
  | cons event events ih =>
    have h := a.apply_atStart event
    rw [List.map_cons, run, run, ← h]
    cases a.apply event with
    | error e => exact atStart_abort a e
    | ok b => exact ih b

end Analyzer

/-- Analysing and forgetting the places can be done in either order. -/
theorem EventStream.analyze_atStart (s : EventStream) :
    s.analyze.atStart = s.atStart.analyze := by
  have hs : Analyzer.start.atStart = .start := by
    simp [Analyzer.atStart, Analyzer.start, SymbolTable.atStart, SymbolTable.empty]
  rw [analyze, Analyzer.atStart_run, hs]
  rfl

/-- Two analyses that show the same but for places. -/
structure Analysis.SameButPlaces (a b : Analysis) : Prop where
  root : a.root = b.root
  preorder : a.preorder = b.preorder
  /-- The columns of the reports, all but the one for the lines. -/
  cells : ∀ column : Nat, Report.headers[column]? ≠ some "Line Number" →
    a.report.rows.map (fun row => row.cells[column]?) =
      b.report.rows.map fun row => row.cells[column]?
  diagnostics : a.diagnostics.map (fun d => (d.severity, d.message)) =
    b.diagnostics.map fun d => (d.severity, d.message)
  exitCode : a.exitCode = b.exitCode
  /-- Neither fails, or both do, with the same kind of failure and the same message. -/
  failure : a.failure.map Failure.atStart = b.failure.map Failure.atStart

theorem Report.Row.cells_atStart (r : Report.Row) {column : Nat}
    (h : Report.headers[column]? ≠ some "Line Number") :
    r.atStart.cells[column]? = r.cells[column]? := by
  match column with
  | 0 | 1 | 2 | 3 | 5 => rfl
  | 4 => exact (h rfl).elim
  | n + 6 => rfl

theorem Analysis.exitCode_atStart (a : Analysis) : a.atStart.exitCode = a.exitCode := by
  have he : a.atStart.errorCount = a.errorCount := by
    simp only [errorCount, atStart, List.countP_map]
    rfl
  have hf : a.atStart.failure.any Failure.isStackError = a.failure.any Failure.isStackError := by
    rw [atStart, Option.any_map]
    cases a.failure with
    | none => rfl
    | some failure => cases failure <;> rfl
  rw [exitCode, exitCode, he, hf]

/-- An analysis shows the same as with its places forgotten. -/
theorem Analysis.SameButPlaces.of_atStart {a b : Analysis} (h : a.atStart = b.atStart) :
    a.SameButPlaces b where
  root := (congrArg Analysis.root h :)
  preorder := (congrArg Analysis.preorder h :)
  cells column hc := by
    have hr := congrArg (fun a : Analysis =>
      a.report.rows.map fun row => row.cells[column]?) h
    simpa [atStart, Report.atStart, Function.comp_def, Report.Row.cells_atStart _ hc] using hr
  diagnostics := by
    have hd := congrArg (fun a : Analysis => a.diagnostics.map fun d => (d.severity, d.message)) h
    simpa [atStart, Function.comp_def, Diagnostic.atStart, Diagnostic.severity,
      Diagnostic.message] using hd
  exitCode := by rw [← exitCode_atStart, h, exitCode_atStart]
  failure := congrArg Analysis.failure h

/-- Two sources with the same kinds of tokens have analyses that show the same but for places. -/
theorem analyze_sameButPlaces {source other : String} {ts us : TokenList}
    (hs : tokenize source = .ok ts) (ho : tokenize other = .ok us)
    (h : ts.tokens.map Token.kind = us.tokens.map Token.kind) :
    (analyze source).SameButPlaces (analyze other) := by
  refine .of_atStart ?_
  rw [analyze, analyze, parse, parse, hs, ho]
  simp only [EventStream.analyze_atStart, ← TokenList.parse_atStart, TokenList.atStart_eq h]

/-- A program that breaks off behind an undeclared name, on one line and on three. -/
theorem lineBreaks_sameButPlaces :
    ∃ ts us, tokenize "int f()\x7ba" = .ok ts ∧ tokenize "int f() // g\n\x7b\n a" = .ok us ∧
      ts.tokens.map Token.kind = us.tokens.map Token.kind ∧
      (analyze "int f()\x7ba").SameButPlaces (analyze "int f() // g\n\x7b\n a") := by
  obtain ⟨ts, ht⟩ : ∃ ts, tokenize "int f()\x7ba" = .ok ts := ⟨_, by cbv⟩
  obtain ⟨us, hu⟩ : ∃ us, tokenize "int f() // g\n\x7b\n a" = .ok us := ⟨_, by cbv⟩
  have hk : (tokenize "int f()\x7ba").map (·.tokens.map Token.kind) =
      (tokenize "int f() // g\n\x7b\n a").map (·.tokens.map Token.kind) := by cbv
  rw [ht, hu] at hk
  have hkinds : ts.tokens.map Token.kind = us.tokens.map Token.kind := Except.ok.inj hk
  exact ⟨ts, us, ht, hu, hkinds, analyze_sameButPlaces ht hu hkinds⟩

end MiniC
