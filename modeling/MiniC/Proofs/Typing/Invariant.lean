import MiniC.Proofs.Execution.Operand
import MiniC.Proofs.Typing.Operand
import MiniC.Proofs.Typing.Role
import MiniC.Proofs.Typing.Table

/-!
# Types and values are kept in step

`Fills t roles operands pending` says that the operands on the stack have the roles, that each of
them is sound, and that the variables that wait for their initializers are those that the operands
in front of the initializers name. A state is `Analyzer.Sound` when its operands fill the roles and
its symbols are sound.

An event that finds the roles its rule asks for keeps a state sound (`Analyzer.Sound.apply`), unless
it reports an undeclared name or leaves a symbol of type `void` with a known value.
-/

namespace MiniC

open SymbolTable

/-- The value of the operand is of its type, and the symbol that it names has a type. -/
structure Operand.Fits (t : SymbolTable) (o : Operand) : Prop where
  sound : o.Sound
  named : ∀ id, o.symbol = some id → t.hasType id = true

/-- The operands have the roles. Each operand in front of an initializer has the type of its
variable, unless that was declared before; the variables are `pending`. -/
inductive Fills (t : SymbolTable) : List Role → List Operand → List Declared → Prop
  | nil : Fills t [] [] []
  | construct {o : Operand} {roles : List Role} {os : List Operand} {pending : List Declared}
      (ho : o.Fits t) (h : Fills t roles os pending) :
    Fills t (.construct :: roles) (o :: os) pending
  | expression {o : Operand} {roles : List Role} {os : List Operand} {pending : List Declared}
      (ho : o.Fits t) (ht : o.type.isSome) (h : Fills t roles os pending) :
    Fills t (.expression :: roles) (o :: os) pending
  | target {o : Operand} {d : Declared} {type : DataType} {roles : List Role} {os : List Operand}
      {pending : List Declared} (ho : o.Fits t) (ht : o.type = some type)
      (hd : (∀ id, d ≠ .redefinition id) → (t.get? d.id).bind Symbol.type = some type)
      (h : Fills t roles os pending) :
    Fills t (.target :: roles) (o :: os) (d :: pending)

namespace Operand

variable {t u : SymbolTable} {o : Operand}

theorem Fits.mono (h : o.Fits t) (hk : t.KeepsTypes u) : o.Fits u :=
  ⟨h.sound, fun id hi => hk.hasType (h.named id hi)⟩

/-- An operand that names no symbol. -/
theorem fits_of_sound (h : o.Sound) (hs : o.symbol = none) : o.Fits t :=
  ⟨h, by simp [hs]⟩

theorem fits_unknown (t : SymbolTable) : unknown.Fits t :=
  fits_of_sound (sound_of_value_eq_none rfl) rfl

end Operand

namespace Fills

variable {t u : SymbolTable} {roles front rest found : List Role} {os : List Operand}
  {pending : List Declared}

theorem mono (h : Fills t roles os pending) (hk : t.KeepsTypes u) : Fills u roles os pending := by
  induction h with
  | nil => exact .nil
  | construct ho _ ih => exact .construct (ho.mono hk) ih
  | expression ho ht _ ih => exact .expression (ho.mono hk) ht ih
  | target ho ht hd _ ih => exact .target (ho.mono hk) ht (fun hr => hk _ _ (hd hr)) ih

theorem of_serve (h : Fills t found os pending) (hs : Role.Serve found roles) :
    Fills t roles os pending := by
  induction h generalizing roles with
  | nil =>
    cases hs
    exact .nil
  | construct ho _ ih =>
    cases hs with
    | @cons _ s _ _ hr hs =>
      cases s with
      | construct => exact .construct ho (ih hs)
      | expression | target => cases hr
  | expression ho ht _ ih =>
    cases hs with
    | @cons _ s _ _ hr hs =>
      cases s with
      | construct => exact .construct ho (ih hs)
      | expression => exact .expression ho ht (ih hs)
      | target => cases hr
  | target ho ht hd _ ih =>
    cases hs with
    | @cons _ s _ _ hr hs =>
      cases s with
      | construct | expression => cases hr
      | target => exact .target ho ht hd (ih hs)

theorem fits (h : Fills t roles os pending) : ∀ o ∈ os, o.Fits t := by
  induction h with
  | nil => simp
  | construct ho _ ih | expression ho _ _ ih | target ho _ _ _ ih =>
    exact List.forall_mem_cons.2 ⟨ho, ih⟩

/-- No variable waits for an initializer that is among the operands taken off the stack. -/
theorem drop (h : Fills t (front ++ rest) os pending) (hf : Role.target ∉ front) :
    Fills t rest (os.drop front.length) pending := by
  induction front generalizing os with
  | nil => exact h
  | cons r front ih =>
    have hf' := List.not_mem_of_not_mem_cons hf
    cases h with
    | construct _ h | expression _ _ h => exact ih h hf'
    | target => exact (hf List.mem_cons_self).elim

theorem exists_expression (h : Fills t (.expression :: roles) os pending) :
    ∃ o more, os = o :: more ∧ o.Fits t ∧ o.type.isSome ∧ Fills t roles more pending := by
  cases h with
  | expression ho ht h => exact ⟨_, _, rfl, ho, ht, h⟩

end Fills

namespace Analyzer

variable {a b : Analyzer} {o l r : Operand} {os : List Operand} {rest : List Role} {line : Nat}
  {loc : Location} {label : String}

/-- The operands on the stack fill the roles, and the symbols are sound. -/
structure Sound (a : Analyzer) (roles : List Role) : Prop where
  wellFormed : a.symbols.WellFormed
  table : a.symbols.Sound
  fills : Fills a.symbols roles a.operands a.pending

theorem Sound.of_serve {found roles : List Role} (h : a.Sound found) (hs : Role.Serve found roles) :
    a.Sound roles := ⟨h.wellFormed, h.table, h.fills.of_serve hs⟩

theorem sound_start : start.Sound [] := ⟨wellFormed_empty, sound_empty, .nil⟩

/-! ## Steps that report -/

theorem exists_reportIf (a : Analyzer) (c : Bool) (line : Nat) (problem : Problem) :
    ∃ diagnostics, a.reportIf c line problem = { a with diagnostics } := by
  cases c <;> exact ⟨_, rfl⟩

theorem exists_declare (a : Analyzer) (name : String) (kind : SymbolKind) (type : DataType)
    (line : Nat) : ∃ diagnostics, a.declare name kind type line =
      ((a.symbols.declare name kind type none line).1,
        { a with symbols := (a.symbols.declare name kind type none line).2, diagnostics }) := by
  simp only [declare]
  split
  · next hd => exact ⟨_, by rw [hd]; rfl⟩
  · exact ⟨_, rfl⟩

theorem exists_compoundSource (a : Analyzer) (op : BinaryOp) (l r : Operand) (line : Nat) :
    ∃ source diagnostics, a.compoundSource op l r line = (source, { a with diagnostics }) := by
  unfold compoundSource
  split
  · exact ⟨_, _, rfl⟩
  · split <;> exact ⟨_, _, rfl⟩

/-! ## The operand that a rule leaves -/

theorem exists_yields_binary (ho : a.operands = r :: l :: os) (hl : l.Fits a.symbols)
    (hr : r.Fits a.symbols) (ht : l.type.isSome) {op : BinaryOp} (h : a.binary op line = .ok b) :
    ∃ o, a.Yields 2 o b ∧ o.Fits a.symbols ∧ o.type.isSome := by
  simp only [binary, ho] at h
  split at h
  · obtain ⟨c, hd, hb⟩ := exists_of_bind_ok h
    obtain ⟨popped, -, hc⟩ := exists_of_bind_ok hd
    obtain rfl := Except.ok.inj hc
    obtain rfl := Except.ok.inj hb
    exact ⟨_, ⟨rfl, rfl, rfl⟩, Operand.fits_of_sound (Operand.sound_constant _) rfl, rfl⟩
  · split at h
    · -- of an invalid remainder the left operand stays
      obtain ⟨popped, -, hb⟩ := exists_of_bind_ok h
      obtain rfl := Except.ok.inj hb
      refine ⟨l, ⟨?_, rfl, rfl⟩, hl, ht⟩
      simp only [report, ho]
      rfl
    · exact ⟨_, (yields_node h).1,
        Operand.fits_of_sound (Operand.sound_binary hl.sound hr.sound _) rfl,
        Operand.isSome_type_binary ht _⟩

/-- What is stored is of the type of its symbol. -/
theorem sound_stored {id : SymbolId} {type : DataType}
    (hs : (a.symbols.get? id).bind Symbol.type = some type)
    (h : a.store label id type o line = .ok b) (hv : b.symbols.VoidUnknown) :
    Operand.Sound ⟨some type, o.value.map (·.convert type), none⟩ := by
  by_cases ht : type = .void
  · -- a symbol of type `void` would hold the value as it is
    subst ht
    obtain ⟨s, hs, hst⟩ := Option.bind_eq_some_iff.1 hs
    have hb : b.symbols.get? id = some (s.assigned (o.value.map (·.convert .void))) := by
      rw [(yields_store h).2, SymbolTable.assign, get?_modify, if_pos rfl, hs]
      rfl
    have hnone := hv id _ hb (by simp only [Symbol.assigned, hst])
    refine Operand.sound_of_value_eq_none ?_
    simpa [Symbol.assigned, hst] using hnone
  · exact Operand.sound_converted ht _

theorem exists_yields_assignTo {op : AssignOp} {id : SymbolId}
    (hid : a.symbols.hasType id = true) (h : a.assignTo op id o line = .ok b)
    (hv : b.symbols.VoidUnknown) :
    ∃ type value, a.Yields 2 ⟨some type, value, none⟩ b ∧
      Operand.Sound ⟨some type, value, none⟩ := by
  obtain ⟨type, ht⟩ := hasType_iff.1 hid
  simp only [assignTo, ht] at h
  exact ⟨type, _, (yields_store h).1, sound_stored ht h hv⟩

theorem exists_yields_assign (ho : a.operands = r :: l :: os) (hl : l.Fits a.symbols)
    (ht : l.type.isSome) {op : AssignOp} (h : a.assign op line = .ok b)
    (hv : b.symbols.VoidUnknown) :
    ∃ type value, a.Yields 2 ⟨some type, value, none⟩ b ∧
      Operand.Sound ⟨some type, value, none⟩ := by
  obtain ⟨type, ht⟩ := Option.isSome_iff_exists.1 ht
  simp only [assign, ho] at h
  split at h
  · obtain ⟨hy, -⟩ := yields_node h
    rw [ht] at hy
    exact ⟨type, none, ⟨hy.operands, hy.declType, hy.pending⟩, Operand.sound_of_value_eq_none rfl⟩
  · next id hid =>
    have hid := hl.named id hid
    split at h
    · exact exists_yields_assignTo hid h hv
    · next arithmetic _ =>
      obtain ⟨source, diagnostics, hc⟩ := exists_compoundSource a arithmetic l r line
      rw [hc] at h
      obtain ⟨type, value, hy, hsound⟩ :=
        exists_yields_assignTo (a := { a with diagnostics }) hid h hv
      exact ⟨type, value, ⟨hy.operands, hy.declType, hy.pending⟩, hsound⟩

theorem fills_initDeclarator
    (hf : Fills a.symbols (.expression :: .target :: rest) a.operands a.pending)
    (h : a.initDeclarator line = .ok b) (hk : a.symbols.KeepsTypes b.symbols)
    (hv : b.symbols.VoidUnknown) : Fills b.symbols (.expression :: rest) b.operands b.pending := by
  obtain ⟨init, more, ho, -, -, hf⟩ := hf.exists_expression
  generalize hp : a.pending = pending at hf
  cases hf with
  | @target target d type _ os pending _ htype hd hf =>
    simp only [initDeclarator, ho, hp, htype, Option.getD_some] at h
    split at h
    · next hnil => cases hnil
    · next hpending =>
      obtain ⟨-, rfl⟩ := List.cons.inj hpending
      obtain ⟨hy, -⟩ := yields_node h
      rw [hy.operands, hy.pending]
      exact .expression (Operand.fits_of_sound (Operand.sound_of_value_eq_none rfl) rfl) rfl
        (hf.mono hk)
    · next hne hpending =>
      obtain ⟨rfl, rfl⟩ := List.cons.inj hpending
      have hstored := sound_stored (by exact hd hne) h hv
      obtain ⟨hy, -⟩ := yields_store h
      rw [hy.operands, hy.pending]
      exact .expression (Operand.fits_of_sound hstored rfl) rfl (hf.mono hk)

/-! ## One event -/

/-- A construct that asks nothing of its parts. -/
theorem fills_construct {front : List Role}
    (hf : Fills a.symbols (front ++ rest) a.operands a.pending)
    (hfront : Role.target ∉ front) (hk : a.symbols.KeepsTypes b.symbols)
    (h : a.node label front.length .unknown = .ok b) :
    Fills b.symbols (.construct :: rest) b.operands b.pending := by
  obtain ⟨hy, -⟩ := yields_node h
  rw [hy.operands, hy.pending]
  exact .construct (Operand.fits_unknown _) ((hf.drop hfront).mono hk)

/-- An expression that takes the place of its parts. -/
theorem fills_expression {front : List Role}
    (hf : Fills a.symbols (front ++ rest) a.operands a.pending)
    (hfront : Role.target ∉ front) (hk : a.symbols.KeepsTypes b.symbols)
    (hy : a.Yields front.length o b) (ho : o.Fits b.symbols) (ht : o.type.isSome) :
    Fills b.symbols (.expression :: rest) b.operands b.pending := by
  rw [hy.operands, hy.pending]
  exact .expression ho ht ((hf.drop hfront).mono hk)

/-- A variable that is declared. -/
theorem fits_declared (hw : a.symbols.WellFormed) (ht : a.symbols.Sound) (name : String)
    (kind : SymbolKind) (type : DataType) (line : Nat) :
    Operand.Fits (a.symbols.declare name kind type none line).2
      ⟨some type, none, some (a.symbols.declare name kind type none line).1.id⟩ ∧
    ((∀ id, (a.symbols.declare name kind type none line).1 ≠ .redefinition id) →
      ((a.symbols.declare name kind type none line).2.get?
        (a.symbols.declare name kind type none line).1.id).bind Symbol.type = some type) := by
  rcases declare_cases hw ht name kind type line with ⟨id, hd, hid⟩ | ⟨hg, hid⟩
  · rw [hd]
    refine ⟨⟨Operand.sound_of_value_eq_none rfl, ?_⟩, fun hn => (hn id rfl).elim⟩
    rintro _ ⟨⟩
    exact hid
  · rw [hid]
    have hs : ((a.symbols.declare name kind type none line).2.get? a.symbols.symbols.size).bind
        Symbol.type = some type := by
      rw [hg.get?, if_pos rfl]
      rfl
    refine ⟨⟨Operand.sound_of_value_eq_none rfl, ?_⟩, fun _ => hs⟩
    rintro _ ⟨⟩
    exact hasType_iff.2 ⟨type, hs⟩

/-- A use of a name that is not reported finds a symbol with a type. -/
theorem exists_yields_identifier (hw : a.symbols.WellFormed) (h : a.symbols.Sound) {name : String}
    (hn : ¬(a.identifier name line).HasUndeclared) :
    ∃ id s, a.symbols.get? id = some s ∧ s.Sound ∧
      a.Yields 0 ⟨s.type, s.value, some id⟩ (a.identifier name line) ∧
      (a.identifier name line).symbols = a.symbols := by
  cases hl : a.symbols.lookup? name with
  | none =>
    refine (hn ⟨⟨line, .undeclared name⟩, ?_, name, rfl⟩).elim
    rw [diagnostics_identifier_of_not_lookup? hl]
    exact List.mem_concat_self
  | some id =>
    obtain ⟨d, ⟨s, hs, -⟩, -⟩ := (lookup?_eq_some_iff hw).1 hl
    obtain ⟨hy, hsym⟩ := yields_identifier hl hs (h id s hs).isTyped line
    exact ⟨id, s, hs, h id s hs, hy, hsym⟩

/-- What an event leaves on the stack has the role that its rule produces. -/
theorem Sound.fills_apply {rule : Rule} (h : a.Sound (rule.consumes ++ rest))
    (hb : a.apply ⟨rule, loc⟩ = .ok b) (hk : a.symbols.KeepsTypes b.symbols)
    (hn : ¬b.HasUndeclared) (hv : b.symbols.VoidUnknown) :
    Fills b.symbols (rule.produces ++ rest) b.operands b.pending := by
  obtain ⟨hw, ht, hf⟩ := h
  cases rule <;> dsimp only [Rule.consumes, Rule.produces, apply] at hb hf ⊢
  case openScope | closeScope | typeSpecifier | declaration =>
    obtain rfl := Except.ok.inj hb
    exact hf.mono hk
  case functionDeclarator name typed =>
    obtain rfl := Except.ok.inj hb
    revert hk
    obtain ⟨diagnostics, hr⟩ := exists_reportIf a (!typed) loc.line .missingType
    simp only [functionDeclarator, hr]
    obtain ⟨more, hd⟩ := exists_declare { a with diagnostics } name .function
      (if typed then a.declaredType else .int) loc.line
    rw [hd]
    exact fun hk => hf.mono hk
  case parameter name type =>
    obtain rfl := Except.ok.inj hb
    revert hk
    obtain ⟨more, hd⟩ := exists_declare a name .param type loc.line
    rw [hd]
    exact fun hk => hf.mono hk
  case declTarget name =>
    obtain rfl := Except.ok.inj hb
    revert hk
    obtain ⟨more, hd⟩ := exists_declare a name .identifier a.declaredType loc.line
    obtain ⟨ho, htype⟩ := fits_declared hw ht name .identifier a.declaredType loc.line
    rw [declTarget_eq, hd]
    exact fun hk => .target ho rfl htype (hf.mono hk)
  case declarator name =>
    obtain rfl := Except.ok.inj hb
    revert hk
    obtain ⟨more, hd⟩ := exists_declare a name .identifier a.declaredType loc.line
    obtain ⟨ho, -⟩ := fits_declared hw ht name .identifier a.declaredType loc.line
    rw [declarator_eq, hd]
    exact fun hk => .expression ho rfl (hf.mono hk)
  case identifier name =>
    obtain rfl := Except.ok.inj hb
    obtain ⟨id, s, hs, hsound, hy, hsym⟩ := exists_yields_identifier hw ht hn
    rw [hsym, hy.operands, hy.pending]
    refine .expression ⟨hsound.value, ?_⟩ hsound.isTyped hf
    rintro _ ⟨⟩
    exact ht.hasType hs
  case literal value =>
    obtain rfl := Except.ok.inj hb
    exact .expression (Operand.fits_of_sound (Operand.sound_constant value) rfl) rfl hf
  case emptyStatement | emptyBlock =>
    obtain rfl := Except.ok.inj hb
    exact .construct (Operand.fits_unknown _) hf
  case unary op =>
    obtain ⟨o, os, ho, hfits, htyped, -⟩ := hf.exists_expression
    simp only [ho] at hb
    exact fills_expression hf (by decide) hk (yields_node hb).1
      (Operand.fits_of_sound (Operand.sound_unary hfits.sound op) rfl)
      (Operand.isSome_type_unary htyped op)
  case postfixed op =>
    obtain ⟨o, os, ho, hfits, htyped, -⟩ := hf.exists_expression
    simp only [ho] at hb
    exact fills_expression hf (by decide) hk (yields_node hb).1
      (Operand.fits_of_sound (Operand.sound_postfixed hfits.sound op) rfl) htyped
  case binary op =>
    obtain ⟨r, os, ho, hr, -, hf'⟩ := hf.exists_expression
    obtain ⟨l, os, rfl, hl, htyped, -⟩ := hf'.exists_expression
    obtain ⟨o, hy, hfits, htype⟩ := exists_yields_binary ho hl hr htyped hb
    exact fills_expression hf (by decide) hk hy (hfits.mono hk) htype
  case assign op =>
    obtain ⟨r, os, ho, -, -, hf'⟩ := hf.exists_expression
    obtain ⟨l, os, rfl, hl, htyped, -⟩ := hf'.exists_expression
    obtain ⟨type, value, hy, hsound⟩ := exists_yields_assign ho hl htyped hb hv
    exact fills_expression hf (by decide) hk hy (Operand.fits_of_sound hsound rfl) rfl
  case comma =>
    obtain ⟨r, os, ho, hr, htyped, hf'⟩ := hf.exists_expression
    obtain ⟨l, os, rfl, -, -, -⟩ := hf'.exists_expression
    simp only [ho] at hb
    exact fills_expression hf (by decide) hk (yields_node hb).1
      (Operand.fits_of_sound hr.sound rfl) htyped
  case ternary =>
    obtain ⟨no, os, ho, -, hno, hf'⟩ := hf.exists_expression
    obtain ⟨yes, os, rfl, -, hyes, hf'⟩ := hf'.exists_expression
    obtain ⟨condition, os, rfl, -, -, -⟩ := hf'.exists_expression
    simp only [ho] at hb
    exact fills_expression hf (by decide) hk (yields_node hb).1
      (Operand.fits_of_sound (Operand.sound_conditional hyes hno) rfl)
      (Operand.isSome_type_conditional hyes hno)
  case initDeclarator name => exact fills_initDeclarator hf hb hk hv
  case functionDefinition name typed =>
    obtain ⟨c, hc, hb⟩ := exists_of_bind_ok hb
    obtain rfl := Except.ok.inj hb
    obtain ⟨hy, hsym⟩ := yields_node hc
    rw [hy.operands, hy.pending]
    exact .construct (Operand.fits_unknown _) ((hf.drop (by decide)).mono hk)
  case sequence | ifThen | ifElse | whileLoop | forLoop =>
    exact fills_construct hf (by decide) hk hb
  case returned value =>
    cases value with
    | false =>
      obtain rfl := Except.ok.inj hb
      exact .construct (Operand.fits_unknown _) hf
    | true => exact fills_construct hf (by decide) hk hb

/-- An event that finds the roles its rule asks for keeps the state sound. -/
theorem Sound.apply {rule : Rule} (h : a.Sound (rule.consumes ++ rest))
    (hb : a.apply ⟨rule, loc⟩ = .ok b) (hn : ¬b.HasUndeclared) (hv : b.symbols.VoidUnknown) :
    b.Sound (rule.produces ++ rest) := by
  have ht := apply_touches hb
  have hsame : ∀ name, rule = .identifier name → b.symbols = a.symbols := by
    rintro name rfl
    obtain rfl := Except.ok.inj hb
    obtain ⟨id, s, -, -, -, hsym⟩ := exists_yields_identifier h.wellFormed h.table hn
    exact hsym
  obtain ⟨htable, hk⟩ := ht.sound h.wellFormed h.table hsame hv
  exact ⟨(ht.scopes h.wellFormed).wellFormed, htable, h.fills_apply hb hk hn hv⟩

end Analyzer

end MiniC
