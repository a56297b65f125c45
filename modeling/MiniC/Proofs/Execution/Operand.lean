import MiniC.Proofs.Effect
import MiniC.Proofs.Execution.Arithmetic
import MiniC.Proofs.Symbol.WellFormed

/-!
# What is known of an integer expression

An operand `Admits` a number when the constant it folds to, if any, stands for that number. Of
operands with integer types an operator makes one with an integer type, which admits what the
operator makes of the numbers that they admit (`Operand.admits_binary`, `Operand.admits_unary`,
`Operand.admits_conditional`).

`Analyzer.Yields a count o b` says that a rule takes `count` operands off the stack and puts `o`
back. For each rule of an expression there is one lemma that says which operand that is, and what
becomes of the symbols.
-/

namespace MiniC

namespace Operand

/-- The operand has the type of whole numbers. -/
def IsInteger (o : Operand) : Prop := ∃ type, o.type = some type ∧ type.IsInteger

/-- The constant that the operand folds to, if any, stands for the number. -/
def Admits (o : Operand) (n : Int) : Prop := ∀ v ∈ o.value, v.Denotes n

variable {o l r condition yes no : Operand} {a b n : Int}

theorem isInteger_of_int (h : o.type = some .int) : o.IsInteger := ⟨.int, h, .inl rfl⟩

/-- Nothing is known of the operand, so it can be any number. -/
theorem admits_of_value_eq_none (h : o.value = none) (n : Int) : o.Admits n := by
  simp [Admits, h]

theorem Admits.eq_zero (h : o.Admits n) (hz : o.isZero = true) : n = 0 := by
  cases hv : o.value with
  | none => simp [isZero, hv] at hz
  | some v => exact (h v hv).isZero_iff.1 (by simpa [isZero, hv] using hz)

theorem promote_eq_int {s t : DataType} (hs : s.IsInteger) (ht : t.IsInteger) :
    DataType.promote s t = .int := by
  rcases hs with rfl | rfl <;> rcases ht with rfl | rfl <;> rfl

/-- Operands with integer types meet in `int`. -/
theorem promoted_eq_int (hl : l.IsInteger) (hr : r.IsInteger) : promoted l r = some .int := by
  obtain ⟨s, hs, hsi⟩ := hl
  obtain ⟨t, ht, hti⟩ := hr
  simp only [promoted, hs, ht, promote_eq_int hsi hti]

/-- A remainder of operands with integer types is valid. -/
theorem floatRemainder?_eq_none (hl : l.IsInteger) (hr : r.IsInteger) :
    floatRemainder? l r = none := by
  obtain ⟨s, hs, hsi⟩ := hl
  obtain ⟨t, ht, hti⟩ := hr
  rcases hsi with rfl | rfl <;> rcases hti with rfl | rfl <;> simp [floatRemainder?, hs, ht]

/-! ## Operators -/

theorem denotes_folded (hl : l.Admits a) (hr : r.Admits b) {op : BinaryOp}
    (h : op.result? a b = some n) : ∀ v ∈ folded op l r, v.Denotes n := by
  intro u hu
  unfold folded at hu
  split at hu
  · next v w hv hw => exact (hl v hv).binary (hr w hw) h hu
  · cases hu

theorem isInteger_binary (hl : l.IsInteger) (hr : r.IsInteger) (op : BinaryOp) :
    (binary op l r).IsInteger := by
  refine isInteger_of_int ?_
  rw [binary]
  split
  · rfl
  · exact promoted_eq_int hl hr

theorem admits_binary (hl : l.Admits a) (hr : r.Admits b) {op : BinaryOp}
    (h : op.result? a b = some n) : (binary op l r).Admits n := denotes_folded hl hr h

theorem isInteger_unary (h : o.IsInteger) {op : UnaryOp} (hi : op ≠ .preInc) (hd : op ≠ .preDec) :
    (unary op o).IsInteger := by
  obtain ⟨t, ht, hti⟩ := h
  have hp : DataType.promote t .int = .int := promote_eq_int hti (.inl rfl)
  refine isInteger_of_int ?_
  cases op with
  | not | bitNot => rfl
  | plus | neg => simp only [unary, ht, Option.map_some, hp]
  | preInc => exact absurd rfl hi
  | preDec => exact absurd rfl hd

theorem admits_unary (h : o.Admits a) {op : UnaryOp} (hr : op.result? a = some n) :
    (unary op o).Admits n := by
  intro w hw
  obtain ⟨v, hv, rfl⟩ := Option.map_eq_some_iff.1 hw
  exact (h v hv).unary hr

/-- Branches with integer types meet in `int`. -/
theorem conditional_eq (hy : yes.IsInteger) (hn : no.IsInteger) :
    conditional condition yes no = ⟨some .int, (condition.value.bind fun c =>
      if c.isZero then no.value else yes.value).map (·.convert .int), none⟩ := by
  obtain ⟨s, hs, hsi⟩ := hy
  obtain ⟨t, ht, hti⟩ := hn
  simp only [conditional, hs, ht, promote_eq_int hsi hti]

theorem isInteger_conditional (hy : yes.IsInteger) (hn : no.IsInteger) :
    (conditional condition yes no).IsInteger :=
  isInteger_of_int (by rw [conditional_eq hy hn])

/-- A condition that is known selects the branch. -/
theorem admits_conditional (hy : yes.IsInteger) (hn : no.IsInteger) (hc : condition.Admits a)
    (hyes : a ≠ 0 → yes.Admits n) (hno : a = 0 → no.Admits n) :
    (conditional condition yes no).Admits n := by
  rw [conditional_eq hy hn]
  intro w hw
  obtain ⟨v, hv, rfl⟩ := Option.map_eq_some_iff.1 hw
  obtain ⟨c, hcv, hv⟩ := Option.bind_eq_some_iff.1 hv
  have hz := (hc c hcv).isZero_iff
  have hd : v.Denotes n := by
    split at hv
    · next hzero => exact hno (hz.1 hzero) v hv
    · next hzero => exact hyes (fun ha => hzero (hz.2 ha)) v hv
  have hi := (hd.convert (.inl rfl)).1
  rwa [hd.fit_int] at hi

end Operand

namespace Analyzer

/-- A rule took `count` operands off the stack and put `o` back. The declaration that is being read
goes on. -/
structure Yields (a : Analyzer) (count : Nat) (o : Operand) (b : Analyzer) : Prop where
  operands : b.operands = o :: a.operands.drop count
  declType : b.declType = a.declType
  pending : b.pending = a.pending

/-- The operands `os` were put on the stack. The declaration that is being read goes on. -/
structure Pushes (a : Analyzer) (os : List Operand) (b : Analyzer) : Prop where
  operands : b.operands = os ++ a.operands
  declType : b.declType = a.declType
  pending : b.pending = a.pending

variable {a b c : Analyzer} {o l r : Operand} {os more rest : List Operand} {line : Nat}
  {loc : Location}

theorem Pushes.refl (a : Analyzer) : a.Pushes [] a := ⟨rfl, rfl, rfl⟩

theorem Pushes.trans (h : a.Pushes os b) (h' : b.Pushes more c) : a.Pushes (more ++ os) c :=
  ⟨by rw [h'.operands, h.operands, List.append_assoc], h'.declType.trans h.declType,
    h'.pending.trans h.pending⟩

/-- A rule makes one operand of those that were put on the stack. -/
theorem Pushes.yields {count : Nat} (h : a.Pushes os b) (hy : b.Yields count o c)
    (hc : count = os.length) : a.Pushes [o] c :=
  ⟨by rw [hy.operands, h.operands, hc, List.drop_left]; rfl, hy.declType.trans h.declType,
    hy.pending.trans h.pending⟩

/-! ## The rules of an expression -/

theorem yields_node {label : String} {arity : Nat} (h : a.node label arity o = .ok b) :
    a.Yields arity o b ∧ b.symbols = a.symbols := by
  obtain ⟨-, -, rfl⟩ := node_eq_ok_iff.1 h
  exact ⟨⟨rfl, rfl, rfl⟩, rfl⟩

theorem yields_unary (ho : a.operands = o :: rest) {op : UnaryOp}
    (h : a.apply ⟨.unary op, loc⟩ = .ok b) :
    a.Yields 1 (.unary op o) b ∧ b.symbols = a.symbols := by
  simp only [apply, ho] at h
  exact yields_node h

theorem yields_ternary {condition yes no : Operand}
    (ho : a.operands = no :: yes :: condition :: rest) (h : a.apply ⟨.ternary, loc⟩ = .ok b) :
    a.Yields 3 (.conditional condition yes no) b ∧ b.symbols = a.symbols := by
  simp only [apply, ho] at h
  exact yields_node h

theorem yields_comma (ho : a.operands = r :: l :: rest) (h : a.apply ⟨.comma, loc⟩ = .ok b) :
    a.Yields 2 ⟨r.type, r.value, none⟩ b ∧ b.symbols = a.symbols := by
  simp only [apply, ho] at h
  exact yields_node h

/-- A use of a name that has a type only puts it on the stacks. -/
theorem identifier_eq_leaf {name : String} {id : SymbolId} {s : Symbol}
    (hl : a.symbols.lookup? name = some id) (hs : a.symbols.get? id = some s)
    (ht : s.isTyped = true) (line : Nat) :
    a.identifier name line = a.leaf name ⟨s.type, s.value, some id⟩ := by
  rw [identifier_eq, SymbolTable.resolve_of_lookup? line hl]
  simp [hs, ht, reportIf]

theorem yields_identifier {name : String} {id : SymbolId} {s : Symbol}
    (hl : a.symbols.lookup? name = some id) (hs : a.symbols.get? id = some s)
    (ht : s.isTyped = true) (line : Nat) :
    a.Yields 0 ⟨s.type, s.value, some id⟩ (a.identifier name line) ∧
      (a.identifier name line).symbols = a.symbols := by
  rw [identifier_eq_leaf hl hs ht]
  exact ⟨⟨rfl, rfl, rfl⟩, rfl⟩

/-- A binary operator between operands with integer types. A division by a known zero leaves an
operand of which too much is known, but there is no number that it should be. -/
theorem yields_binary (ho : a.operands = r :: l :: rest) (hl : l.IsInteger) (hr : r.IsInteger)
    {op : BinaryOp} (h : a.binary op line = .ok b) :
    ∃ o, a.Yields 2 o b ∧ b.symbols = a.symbols ∧ o.IsInteger ∧
      ∀ x y n, l.Admits x → r.Admits y → op.result? x y = some n → o.Admits n := by
  simp only [binary, ho, Operand.floatRemainder?_eq_none hl hr] at h
  split at h
  · next hz =>
    obtain ⟨rfl, hz⟩ := hz
    obtain ⟨c, hd, hb⟩ := exists_of_bind_ok h
    obtain ⟨popped, -, hc⟩ := exists_of_bind_ok hd
    obtain rfl := Except.ok.inj hc
    obtain rfl := Except.ok.inj hb
    refine ⟨_, ⟨rfl, rfl, rfl⟩, rfl, Operand.isInteger_of_int rfl, fun x y n _ hy hn => ?_⟩
    rw [BinaryOp.result?, if_pos (.inl (hy.eq_zero hz))] at hn
    cases hn
  · obtain ⟨hy, hs⟩ := yields_node (by simpa using h)
    exact ⟨_, hy, hs, Operand.isInteger_binary hl hr op,
      fun _ _ _ hx hy hn => Operand.admits_binary hx hy hn⟩

/-! ## Stores -/

theorem yields_store {label : String} {id : SymbolId} {type : DataType}
    (h : a.store label id type o line = .ok b) :
    a.Yields 2 ⟨some type, o.value.map (·.convert type), none⟩ b ∧
      b.symbols = a.symbols.assign id (o.value.map (·.convert type)) := by
  have hw : ∀ source, ∃ diagnostics, a.warnNarrowing type source line = { a with diagnostics } := by
    intro source
    unfold warnNarrowing reportIf
    (repeat' split) <;> exact ⟨_, rfl⟩
  obtain ⟨diagnostics, hw⟩ := hw o.type
  simp only [store, hw] at h
  obtain ⟨hy, hs⟩ := yields_node h
  exact ⟨⟨hy.operands, hy.declType, hy.pending⟩, hs⟩

/-- What is known of a value that is stored. -/
theorem denotes_convert {type : DataType} (ht : type.IsInteger) {n : Int} (h : o.Admits n) :
    ∀ v ∈ o.value.map (·.convert type), v.type = type ∧ v.Denotes (type.fit n) := by
  intro w hw
  obtain ⟨v, hv, rfl⟩ := Option.map_eq_some_iff.1 hw
  exact ((h v hv).convert ht).symm

/-- What a compound assignment stores, when its operands have integer types. -/
theorem compoundSource_eq (hl : l.IsInteger) (hr : r.IsInteger) (op : BinaryOp) (a : Analyzer)
    (line : Nat) :
    ∃ source diagnostics, a.compoundSource op l r line = (source, { a with diagnostics }) ∧
      ∀ x y n, l.Admits x → r.Admits y → op.result? x y = some n → source.Admits n := by
  simp only [compoundSource, Operand.floatRemainder?_eq_none hl hr]
  split
  · exact ⟨_, _, rfl, fun _ _ n _ _ _ => Operand.admits_of_value_eq_none rfl n⟩
  · exact ⟨_, a.diagnostics, rfl, fun _ _ _ hx hy hn => Operand.denotes_folded hx hy hn⟩

/-- An assignment to a symbol with an integer type. -/
theorem yields_assign (ho : a.operands = r :: l :: rest) (hl : l.IsInteger) (hr : r.IsInteger)
    {id : SymbolId} (hid : l.symbol = some id) {type : DataType} (ht : type.IsInteger)
    (hs : (a.symbols.get? id).bind Symbol.type = some type) {op : AssignOp}
    (h : a.assign op line = .ok b) :
    ∃ value, a.Yields 2 ⟨some type, value, none⟩ b ∧ b.symbols = a.symbols.assign id value ∧
      ∀ x y n, l.Admits x → r.Admits y → op.result? x y = some n →
        ∀ v ∈ value, v.type = type ∧ v.Denotes (type.fit n) := by
  simp only [assign, ho, hid] at h
  cases harith : op.arithmetic? with
  | none =>
    simp only [harith, assignTo, hs] at h
    obtain ⟨hy, hsym⟩ := yields_store h
    refine ⟨_, hy, hsym, fun x y n _ hr hn => ?_⟩
    rw [AssignOp.result?, harith] at hn
    exact denotes_convert ht (Option.some.inj hn ▸ hr)
  | some arithmetic =>
    obtain ⟨source, diagnostics, hc, hsource⟩ :=
      compoundSource_eq hl hr arithmetic a line
    simp only [harith, hc, assignTo, hs] at h
    obtain ⟨hy, hsym⟩ := yields_store h
    refine ⟨_, ⟨hy.operands, hy.declType, hy.pending⟩, hsym, fun x y n hl hr hn => ?_⟩
    rw [AssignOp.result?, harith] at hn
    exact denotes_convert ht (hsource x y n hl hr hn)

/-- The latest variable that waits for its initializer gets its value. -/
theorem yields_initDeclarator (ho : a.operands = r :: l :: rest) {type : DataType}
    (hl : l.type = some type) {declared : Declared} {pending : List Declared}
    (hp : a.pending = declared :: pending) (hd : ∀ id, declared ≠ .redefinition id)
    (h : a.initDeclarator line = .ok b) :
    b.declType = a.declType ∧
      b.symbols = a.symbols.assign declared.id (r.value.map (·.convert type)) := by
  simp only [initDeclarator, ho, hp, hl, Option.getD_some] at h
  obtain ⟨hy, hs⟩ := yields_store h
  exact ⟨hy.declType, hs⟩

end Analyzer

end MiniC
