import MiniC.Proofs.Typing.Soundness

/-!
# What is narrowed is reported

`Analyzer.Stores a event v type` says that an event in the state `a` stores the known value `v` in a
symbol of the type : an initializer, a plain assignment, or a compound assignment with what it
folds. Behind such an event the symbol holds the value, converted to its type
(`Analyzer.Sound.exists_stored`), and no other initializer or assignment leaves another known value
in a symbol (`Analyzer.exists_stores_of_initDeclarator`, `Analyzer.exists_stores_of_assign`).

The warning about a store is decided by the type of the operand and not by its value, so it is as
good as that type. As long as no undeclared name was reported and no value of a symbol of
type `void` was known, operands are sound and every store that narrows is reported on its line
(`narrowing_reported`). A variable of type `void` holds a value as it is, and out of it the value
is narrowed unreported (`void_narrowed_unreported`).
-/

namespace MiniC

open SymbolTable

theorem AssignOp.isComparison_of_arithmetic? {op : AssignOp} {arithmetic : BinaryOp}
    (h : op.arithmetic? = some arithmetic) : arithmetic.isComparison = false := by
  cases op <;> cases h <;> rfl

/-- What was converted to a type is of that type. -/
theorem Value.convert_convert (v : Value) (type : DataType) :
    (v.convert type).convert type = v.convert type := by
  cases type with
  | int | float | void => rfl
  | char =>
    -- a character widens to an integer whose low eight bits it is
    have h (c : UInt8) : (char c).toInt32.toUInt32.toUInt8 = c := by
      have hd : (char c).Denotes c.toNat := rfl
      have hn := toNat_toUInt8 (char c).toInt32
      have hlt := c.toNat_lt
      rw [hd.toInt_toInt32] at hn
      exact UInt8.toNat_inj.1 (by omega)
    exact congrArg char (h _)

namespace Analyzer

variable {a b : Analyzer} {o : Operand} {v : Value} {type : DataType} {label : String}
  {id : SymbolId} {line : Nat} {loc : Location} {rule : Rule} {rest : List Role}

/-! ## What an event stores -/

/-- The event stores the known value in a symbol of the type. -/
inductive Stores (a : Analyzer) : Event → Value → DataType → Prop
  | initializer {init target : Operand} {os : List Operand} {declared : Declared}
      {pending : List Declared} {v : Value} {type : DataType} {name : String} {loc : Location}
      (ho : a.operands = init :: target :: os) (hp : a.pending = declared :: pending)
      (hd : ∀ id, declared ≠ .redefinition id)
      (ht : (a.symbols.get? declared.id).bind Symbol.type = some type)
      (hv : init.value = some v) : Stores a ⟨.initDeclarator name, loc⟩ v type
  | plain {rhs lhs : Operand} {os : List Operand} {id : SymbolId} {v : Value} {type : DataType}
      {op : AssignOp} {loc : Location} (ho : a.operands = rhs :: lhs :: os)
      (hop : op.arithmetic? = none) (hid : lhs.symbol = some id)
      (ht : (a.symbols.get? id).bind Symbol.type = some type)
      (hv : rhs.value = some v) : Stores a ⟨.assign op, loc⟩ v type
  | compound {rhs lhs : Operand} {os : List Operand} {id : SymbolId} {v : Value} {type : DataType}
      {op : AssignOp} {arithmetic : BinaryOp} {loc : Location} (ho : a.operands = rhs :: lhs :: os)
      (hop : op.arithmetic? = some arithmetic) (hid : lhs.symbol = some id)
      (ht : (a.symbols.get? id).bind Symbol.type = some type)
      (hv : (a.compoundSource arithmetic lhs rhs loc.line).1.value = some v) :
    Stores a ⟨.assign op, loc⟩ v type

/-- A store leaves another known value in a symbol only if it stores one, in a symbol with a type. -/
theorem exists_of_value_store {j : SymbolId} {w : Value}
    (h : a.store label id type o line = .ok b)
    (hw : (b.symbols.get? j).bind Symbol.value = some w)
    (hne : (a.symbols.get? j).bind Symbol.value ≠ some w) :
    ∃ v t, o.value = some v ∧ (a.symbols.get? id).bind Symbol.type = some t := by
  rw [(yields_store h).2, SymbolTable.assign, get?_modify] at hw
  split at hw
  · next hj =>
    obtain ⟨s', hs', hval⟩ := Option.bind_eq_some_iff.1 hw
    obtain ⟨s, hs, rfl⟩ := Option.map_eq_some_iff.1 hs'
    unfold Symbol.assigned at hval
    split at hval
    · next t ht =>
      obtain ⟨u, hu, -⟩ := Option.map_eq_some_iff.1 hval
      obtain ⟨v, hv, -⟩ := Option.map_eq_some_iff.1 hu
      exact ⟨v, t, hv, by rw [hj, hs, Option.bind_some, ht]⟩
    · exact absurd (by rw [hs, Option.bind_some, hval]) hne
  · exact absurd hw hne

/-- An initializer that leaves another known value in a symbol stores it. -/
theorem exists_stores_of_initDeclarator {name : String} {j : SymbolId} {w : Value}
    (hb : a.apply ⟨.initDeclarator name, loc⟩ = .ok b)
    (hw : (b.symbols.get? j).bind Symbol.value = some w)
    (hne : (a.symbols.get? j).bind Symbol.value ≠ some w) :
    ∃ v type, a.Stores ⟨.initDeclarator name, loc⟩ v type := by
  simp only [Analyzer.apply, initDeclarator] at hb
  split at hb
  · next ho =>
    split at hb
    · exact absurd (symbols_node hb ▸ hw) hne
    · exact absurd (symbols_node hb ▸ hw) hne
    · next hd hp =>
      obtain ⟨v, type, hv, ht⟩ := exists_of_value_store hb hw hne
      exact ⟨v, type, .initializer ho hp hd ht hv⟩
  · cases hb

/-- An assignment that leaves another known value in a symbol stores it. -/
theorem exists_stores_of_assign {op : AssignOp} {j : SymbolId} {w : Value}
    (hb : a.apply ⟨.assign op, loc⟩ = .ok b)
    (hw : (b.symbols.get? j).bind Symbol.value = some w)
    (hne : (a.symbols.get? j).bind Symbol.value ≠ some w) :
    ∃ v type, a.Stores ⟨.assign op, loc⟩ v type := by
  have hto : ∀ {c : Analyzer} {id : SymbolId} {o : Operand}, c.symbols = a.symbols →
      c.assignTo op id o loc.line = .ok b →
      ∃ v type, o.value = some v ∧ (a.symbols.get? id).bind Symbol.type = some type := by
    intro c id o hc hb
    unfold assignTo at hb
    split at hb
    · exact hc ▸ exists_of_value_store hb hw (hc ▸ hne)
    · exact absurd (hc ▸ symbols_node hb ▸ hw) hne
  simp only [Analyzer.apply, assign] at hb
  split at hb
  · next ho =>
    split at hb
    · exact absurd (symbols_node hb ▸ hw) hne
    · next hid =>
      split at hb
      · next hop =>
        obtain ⟨v, type, hv, ht⟩ := hto rfl hb
        exact ⟨v, type, .plain ho hop hid ht hv⟩
      · next hop =>
        obtain ⟨v, type, hv, ht⟩ := hto (symbols_compoundSource ..) hb
        exact ⟨v, type, .compound ho hop hid ht hv⟩
  · cases hb

/-- A compound assignment that stores a known value has folded it, and reports nothing else. -/
theorem compoundSource_of_value {arithmetic : BinaryOp} {lhs rhs : Operand}
    (hv : (a.compoundSource arithmetic lhs rhs line).1.value = some v) :
    a.compoundSource arithmetic lhs rhs line =
      (⟨lhs.promoted rhs, lhs.folded arithmetic rhs, none⟩, a) := by
  revert hv
  unfold compoundSource
  split
  · simp
  · split <;> simp

/-- In a sound state, an event that stores a value stores that of a sound operand, in a symbol of
the type it warns for. -/
theorem Sound.exists_store {event : Event} (h : a.Sound (event.rule.consumes ++ rest))
    (hs : a.Stores event v type) (hb : a.apply event = .ok b) :
    ∃ pending label id o, (a.symbols.get? id).bind Symbol.type = some type ∧ o.Sound ∧
      o.value = some v ∧ { a with pending }.store label id type o event.location.line = .ok b := by
  have hf := h.fills
  cases hs with
  | initializer ho hp hd ht hv =>
    obtain ⟨init, more, ho', hinit, -, hf⟩ := hf.exists_expression
    obtain ⟨rfl, rfl⟩ := List.cons.inj (ho.symm.trans ho')
    rw [hp] at hf
    cases hf with
    | target _ htype hd' _ =>
      obtain rfl := Option.some.inj ((hd' hd).symm.trans ht)
      simp only [Analyzer.apply, initDeclarator, ho, hp, htype, Option.getD_some] at hb
      exact ⟨_, _, _, _, ht, hinit.sound, hv, ho ▸ hb⟩
  | plain ho hop hid ht hv =>
    obtain ⟨rhs, more, ho', hr, -, -⟩ := hf.exists_expression
    obtain ⟨rfl, -⟩ := List.cons.inj (ho.symm.trans ho')
    simp only [Analyzer.apply, assign, ho, hid, hop, assignTo, ht] at hb
    exact ⟨a.pending, _, _, _, ht, hr.sound, hv, hb⟩
  | @compound rhs lhs os id _ _ op arithmetic loc ho hop hid ht hv =>
    obtain ⟨_, _, ho', hr, -, hf⟩ := hf.exists_expression
    obtain ⟨rfl, rfl⟩ := List.cons.inj (ho.symm.trans ho')
    obtain ⟨_, _, ho', hl, -, -⟩ := hf.exists_expression
    obtain ⟨rfl, -⟩ := List.cons.inj ho'
    have hc := compoundSource_of_value hv
    rw [hc] at hv
    have hsound := Operand.sound_binary hl.sound hr.sound arithmetic
    simp only [Operand.binary, AssignOp.isComparison_of_arithmetic? hop] at hsound
    simp only [Analyzer.apply, assign, ho, hid, hop, hc, assignTo, ht] at hb
    exact ⟨a.pending, _, _, _, ht, hsound, hv, hb⟩

/-- Behind the event the symbol holds the value, converted to its type. -/
theorem Sound.exists_stored {event : Event} (h : a.Sound (event.rule.consumes ++ rest))
    (hs : a.Stores event v type) (hb : a.apply event = .ok b) :
    ∃ id s, b.symbols.get? id = some s ∧ s.type = some type ∧
      s.value = some (v.convert type) := by
  obtain ⟨pending, label, id, o, ht, -, hv, hstore⟩ := h.exists_store hs hb
  obtain ⟨s, hs, hst⟩ := Option.bind_eq_some_iff.1 ht
  have ha : s.assigned (o.value.map (·.convert type)) =
      { s with value := some (v.convert type) } := by
    simp only [Symbol.assigned, hst, hv, Option.map_some, Value.convert_convert]
  refine ⟨id, { s with value := some (v.convert type) }, ?_, hst, rfl⟩
  rw [(yields_store hstore).2, SymbolTable.assign, get?_modify, if_pos rfl]
  exact (congrArg (Option.map _) hs).trans (congrArg some ha)

/-! ## What it reports -/

/-- A store of a sound operand whose value is narrowed. -/
theorem diagnostics_store (ho : o.Sound) (hv : o.value = some v) (hn : v.type.narrows type = true)
    (h : a.store label id type o line = .ok b) :
    b.diagnostics = a.diagnostics ++ [⟨line, .narrowing v.type type⟩] := by
  have ht : o.type = some v.type := ho v hv
  have hw : a.warnNarrowing type o.type line = a.report line (.narrowing v.type type) := by
    rw [ht]
    exact if_pos hn
  rw [store, hw] at h
  obtain ⟨trees, operands, rfl⟩ := exists_of_node h
  rfl

/-- What is read out of a variable of type `void` is stored unreported, whatever its value. -/
theorem diagnostics_store_of_void (ho : o.type = some .void)
    (h : a.store label id type o line = .ok b) : b.diagnostics = a.diagnostics := by
  have hw : a.warnNarrowing type o.type line = a := by
    rw [ho]
    rfl
  rw [store, hw] at h
  obtain ⟨trees, operands, rfl⟩ := exists_of_node h
  rfl

end Analyzer

/-- Every event of a source that stores a known value which is narrowed reports that on its line,
and nothing else, if no undeclared name was reported before it and no value of a symbol of type
`void` was known. -/
theorem narrowing_reported {source : String} {before after : List Event} {event : Event}
    (he : (parse source).events = before ++ event :: after) :
    ∃ a b, Analyzer.start.after before = .ok a ∧ a.apply event = .ok b ∧
      (¬a.HasUndeclared →
        (∀ front c, front <+: before → Analyzer.start.after front = .ok c →
          c.symbols.VoidUnknown) →
        ∀ v type, a.Stores event v type → v.type.narrows type = true →
          b.diagnostics = a.diagnostics ++ [⟨event.location.line, .narrowing v.type type⟩]) := by
  obtain ⟨a, b, ha, hb⟩ := exists_apply_of_parse he
  refine ⟨a, b, ha, hb, fun hu hvoid v type hs hn => ?_⟩
  obtain ⟨roles, hsound, hg⟩ :=
    Analyzer.sound_start.after ha (he ▸ parse_orderly source) hu hvoid
  obtain ⟨left, hleft⟩ := Option.isSome_iff_exists.1 hg
  obtain ⟨front, rest, rfl, hf, -⟩ := Goal.behind?_cons hleft
  obtain ⟨pending, label, id, o, -, ho, hv, hstore⟩ :=
    (hsound.of_serve (hf.append rest)).exists_store hs hb
  have hreport := Analyzer.diagnostics_store ho hv hn hstore
  exact hreport

/-- A character in a floating-point variable. -/
theorem narrowing_of_char_reported :
    ∃ before after a b,
      (parse "float x='a';").events = before ++ ⟨.initDeclarator "x", ⟨1, 7⟩⟩ :: after ∧
      Analyzer.start.after before = .ok a ∧ a.apply ⟨.initDeclarator "x", ⟨1, 7⟩⟩ = .ok b ∧
      b.diagnostics = [⟨1, .narrowing .char .float⟩] := by
  have he : (parse "float x='a';").events =
      [⟨.typeSpecifier .float, ⟨1, 1⟩⟩, ⟨.declTarget "x", ⟨1, 7⟩⟩, ⟨.literal (.char 97), ⟨1, 9⟩⟩] ++
        ⟨.initDeclarator "x", ⟨1, 7⟩⟩ :: [⟨.declaration, ⟨1, 12⟩⟩] := by cbv
  obtain ⟨a, b, ha, hb, hreport⟩ := narrowing_reported he
  have hstate : (Analyzer.start.after [⟨.typeSpecifier .float, ⟨1, 1⟩⟩,
      ⟨.declTarget "x", ⟨1, 7⟩⟩, ⟨.literal (.char 97), ⟨1, 9⟩⟩]).map
        (fun a => (a.operands, a.pending, (a.symbols.get? 0).bind Symbol.type, a.diagnostics)) =
      .ok ([.constant (.char 97), ⟨some .float, none, some 0⟩], [.fresh 0], some .float, []) := by
    cbv
  rw [ha] at hstate
  obtain ⟨ho, hp, ht, hd⟩ : _ ∧ _ ∧ _ ∧ _ := by simpa using Except.ok.inj hstate
  have hclean : a.IsClean := by simp [Analyzer.IsClean, hd]
  have hvoid := Analyzer.voidUnknown_of_prefix ha hclean (by simp [Rule.type?])
  have hr := hreport hclean.not_hasUndeclared hvoid (.char 97) .float
    (.initializer ho hp (by simp) ht rfl) rfl
  exact ⟨_, _, a, b, he, ha, hb, by rw [hr, hd]; rfl⟩

/-- A character in a floating-point variable, out of a variable of type `void`. -/
theorem void_narrowed_unreported :
    ∃ before after a b,
      (parse "void v='a';float x=v;").events = before ++ ⟨.initDeclarator "x", ⟨1, 18⟩⟩ :: after ∧
      Analyzer.start.after before = .ok a ∧ a.apply ⟨.initDeclarator "x", ⟨1, 18⟩⟩ = .ok b ∧
      a.Stores ⟨.initDeclarator "x", ⟨1, 18⟩⟩ (.char 97) .float ∧
      (Value.char 97).type.narrows .float = true ∧ b.diagnostics = [] := by
  have he : (parse "void v='a';float x=v;").events =
      [⟨.typeSpecifier .void, ⟨1, 1⟩⟩, ⟨.declTarget "v", ⟨1, 6⟩⟩, ⟨.literal (.char 97), ⟨1, 8⟩⟩,
        ⟨.initDeclarator "v", ⟨1, 6⟩⟩, ⟨.declaration, ⟨1, 11⟩⟩, ⟨.typeSpecifier .float, ⟨1, 12⟩⟩,
        ⟨.declTarget "x", ⟨1, 18⟩⟩, ⟨.identifier "v", ⟨1, 20⟩⟩] ++
      ⟨.initDeclarator "x", ⟨1, 18⟩⟩ :: [⟨.declaration, ⟨1, 21⟩⟩, ⟨.sequence, ⟨1, 12⟩⟩] := by cbv
  obtain ⟨a, b, ha, hb⟩ := exists_apply_of_parse he
  have hstate : (Analyzer.start.after [⟨.typeSpecifier .void, ⟨1, 1⟩⟩,
      ⟨.declTarget "v", ⟨1, 6⟩⟩, ⟨.literal (.char 97), ⟨1, 8⟩⟩, ⟨.initDeclarator "v", ⟨1, 6⟩⟩,
      ⟨.declaration, ⟨1, 11⟩⟩, ⟨.typeSpecifier .float, ⟨1, 12⟩⟩, ⟨.declTarget "x", ⟨1, 18⟩⟩,
      ⟨.identifier "v", ⟨1, 20⟩⟩]).map
        (fun a => (a.operands, a.pending, (a.symbols.get? 1).bind Symbol.type, a.diagnostics)) =
      .ok ([⟨some .void, some (.char 97), some 0⟩, ⟨some .float, none, some 1⟩,
        ⟨some .void, some (.char 97), none⟩], [.fresh 1], some .float, []) := by
    cbv
  rw [ha] at hstate
  obtain ⟨ho, hp, ht, hd⟩ : _ ∧ _ ∧ _ ∧ _ := by simpa using Except.ok.inj hstate
  refine ⟨_, _, a, b, he, ha, hb, .initializer ho hp (by simp) ht rfl, rfl, ?_⟩
  simp only [Analyzer.apply, Analyzer.initDeclarator, ho, hp] at hb
  exact (Analyzer.diagnostics_store_of_void rfl hb).trans hd

end MiniC
