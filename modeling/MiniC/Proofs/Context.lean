import MiniC.Proofs.Effect

/-!
# The declaration that is being read

Between two events an `Analyzer` knows the type in front of the declaration that is being read, and
the variables that wait for their initializers. Only a few rules look at the two : all others keep
them, whatever they report and store (`Analyzer.sameContext_apply`), and an initializer takes the
latest waiting variable (`Analyzer.sameContext_initDeclarator`).
-/

namespace MiniC

/-- Whether the rule leaves the declaration that is being read alone. -/
def Rule.keepsContext : Rule → Bool
  | typeSpecifier _ | functionDeclarator _ _ | declTarget _ | initDeclarator _ | declaration => false
  | _ => true

namespace Analyzer

/-- The states are within the same declaration. -/
structure SameContext (a b : Analyzer) : Prop where
  declType : b.declType = a.declType
  pending : b.pending = a.pending

variable {a b c : Analyzer} {line : Nat}

theorem SameContext.refl (a : Analyzer) : a.SameContext a := ⟨rfl, rfl⟩

theorem SameContext.trans (h : a.SameContext b) (h' : b.SameContext c) : a.SameContext c :=
  ⟨h'.declType.trans h.declType, h'.pending.trans h.pending⟩

/-! ## Steps -/

theorem sameContext_report (a : Analyzer) (line : Nat) (problem : Problem) :
    a.SameContext (a.report line problem) := ⟨rfl, rfl⟩

theorem sameContext_reportIf (a : Analyzer) (condition : Bool) (line : Nat) (problem : Problem) :
    a.SameContext (a.reportIf condition line problem) := by
  cases condition
  · exact .refl a
  · exact sameContext_report a line problem

theorem sameContext_declare (a : Analyzer) (name : String) (kind : SymbolKind) (type : DataType)
    (line : Nat) : a.SameContext (a.declare name kind type line).2 := by
  simp only [declare]
  split <;> exact ⟨rfl, rfl⟩

theorem sameContext_warnNarrowing (a : Analyzer) (target : DataType) (source : Option DataType)
    (line : Nat) : a.SameContext (a.warnNarrowing target source line) := by
  cases source with
  | none => exact .refl a
  | some source => exact sameContext_reportIf ..

theorem sameContext_compoundSource (a : Analyzer) (op : BinaryOp) (lhs rhs : Operand)
    (line : Nat) : a.SameContext (a.compoundSource op lhs rhs line).2 := by
  unfold compoundSource
  (repeat' split) <;> exact ⟨rfl, rfl⟩

theorem sameContext_node {label : String} {arity : Nat} {operand : Operand}
    (h : a.node label arity operand = .ok b) : a.SameContext b := by
  obtain ⟨trees, operands, rfl⟩ := exists_of_node h
  exact ⟨rfl, rfl⟩

theorem sameContext_discard {label : String} {count : Nat} (h : a.discard label count = .ok b) :
    a.SameContext b := by
  obtain ⟨trees, operands, rfl⟩ := exists_of_discard h
  exact ⟨rfl, rfl⟩

/-! ## Rules -/

theorem sameContext_store {label : String} {id : SymbolId} {type : DataType} {source : Operand}
    (h : a.store label id type source line = .ok b) : a.SameContext b := by
  have hn := sameContext_node h
  exact (sameContext_warnNarrowing a type source.type line).trans ⟨hn.declType, hn.pending⟩

theorem sameContext_binary {op : BinaryOp} (h : a.binary op line = .ok b) : a.SameContext b := by
  unfold binary at h
  split at h
  · split at h
    · obtain ⟨c, hd, hb⟩ := exists_of_bind_ok h
      obtain rfl := Except.ok.inj hb
      have hc := (sameContext_report a line .divisionByZero).trans (sameContext_discard hd)
      exact ⟨hc.declType, hc.pending⟩
    · split at h
      · exact (sameContext_report ..).trans (sameContext_discard h)
      · exact sameContext_node h
  · cases h

theorem sameContext_assignTo {op : AssignOp} {id : SymbolId} {source : Operand}
    (h : a.assignTo op id source line = .ok b) : a.SameContext b := by
  unfold assignTo at h
  split at h
  · exact sameContext_store h
  · exact sameContext_node h

theorem sameContext_assign {op : AssignOp} (h : a.assign op line = .ok b) : a.SameContext b := by
  unfold assign at h
  split at h
  · split at h
    · exact (sameContext_report ..).trans (sameContext_node h)
    · split at h
      · exact sameContext_assignTo h
      · exact (sameContext_compoundSource ..).trans (sameContext_assignTo h)
  · cases h

/-- An initializer takes the latest variable that waits for one. -/
theorem sameContext_initDeclarator (h : a.initDeclarator line = .ok b) :
    { a with pending := a.pending.tail }.SameContext b := by
  unfold initDeclarator at h
  split at h
  · dsimp only at h
    split at h
    · next hp =>
      rw [hp]
      exact ⟨(sameContext_node h).declType, (sameContext_node h).pending.trans hp⟩
    · next hp =>
      rw [hp]
      exact sameContext_node h
    · next hp =>
      rw [hp]
      exact sameContext_store h
  · cases h

theorem sameContext_apply {event : Event} (h : a.apply event = .ok b)
    (hr : event.rule.keepsContext = true) : a.SameContext b := by
  obtain ⟨rule, loc⟩ := event
  cases rule <;> dsimp only [apply] at h
  case typeSpecifier | functionDeclarator | declTarget | initDeclarator | declaration => cases hr
  case openScope | closeScope | literal | emptyStatement | emptyBlock =>
    obtain rfl := Except.ok.inj h
    exact ⟨rfl, rfl⟩
  case parameter =>
    obtain rfl := Except.ok.inj h
    exact sameContext_declare ..
  case declarator name =>
    obtain rfl := Except.ok.inj h
    have hd := sameContext_declare a name .identifier a.declaredType loc.line
    exact ⟨hd.declType, hd.pending⟩
  case identifier name =>
    obtain rfl := Except.ok.inj h
    rw [identifier_eq]
    have hd := fun c => sameContext_reportIf
      { a with symbols := (a.symbols.resolve name loc.line).2 } c loc.line (.undeclared name)
    exact ⟨(hd _).declType, (hd _).pending⟩
  case functionDefinition =>
    obtain ⟨c, hn, hb⟩ := exists_of_bind_ok h
    obtain rfl := Except.ok.inj hb
    exact ⟨(sameContext_node hn).declType, (sameContext_node hn).pending⟩
  case assign => exact sameContext_assign h
  case binary => exact sameContext_binary h
  case unary | postfixed | ternary | comma =>
    split at h
    · exact sameContext_node h
    · cases h
  case sequence | ifThen | ifElse | whileLoop | forLoop => exact sameContext_node h
  case returned value =>
    cases value
    case false =>
      obtain rfl := Except.ok.inj h
      exact ⟨rfl, rfl⟩
    case true => exact sameContext_node h

end Analyzer

end MiniC
