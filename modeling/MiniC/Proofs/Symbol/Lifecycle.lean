import Mathlib
import MiniC.Proofs.Symbol.Growth
import MiniC.Proofs.Symbol.Operation

/-!
# The life of a symbol

A symbol is made with its name and its scope, which never change. It goes out of scope once, and it
gets its type once, at the latest when its name is declared in its scope; its kind and its line
change with its type and never else, and its value then or when another one is stored in it.
`Symbol.Steps` says this of one call and `Symbol.Persists` of any number of them. Every call keeps
to it (`SymbolTable.steps_perform`), and so does every sequence of calls (`symbol_lifecycle`).
-/

namespace MiniC

namespace Symbol

/-- The value is known only behind a declaration, and is then of the declared type, unless that is
`void`. -/
structure ValueFits (s : Symbol) : Prop where
  untyped : s.type = none → s.value = none
  typed : ∀ type v, s.type = some type → type ≠ .void → s.value = some v → v.type = type

/-- The symbol has no type and gets one. -/
def GetsType (s s' : Symbol) : Prop := s.type = none ∧ s'.type ≠ none

/-- What one step can do to a symbol, in which a value is stored only if `stores` holds. -/
structure Steps (stores : Prop) (s s' : Symbol) : Prop where
  name : s'.name = s.name
  scope : s'.scope = s.scope
  valid : s'.valid = true → s.valid = true
  type : ∀ type, s.type = some type → s'.type = some type
  kind : s'.kind ≠ s.kind → s.GetsType s'
  line : s'.line ≠ s.line → s.GetsType s'
  value : s'.value ≠ s.value → s.GetsType s' ∨ s.type ≠ none ∧ stores

/-- What any number of steps can do to a symbol. -/
structure Persists (s s' : Symbol) : Prop where
  name : s'.name = s.name
  scope : s'.scope = s.scope
  valid : s'.valid = true → s.valid = true
  /-- A symbol with a type keeps it, and its kind and its line. -/
  typed : s.type ≠ none → s'.type = s.type ∧ s'.kind = s.kind ∧ s'.line = s.line
  /-- A symbol that still has no type is as it was, but for being in scope. -/
  untyped : s'.type = none → s' = { s with valid := s'.valid }

variable {stores : Prop} {s s' s'' : Symbol}

theorem Steps.refl (stores : Prop) (s : Symbol) : s.Steps stores s :=
  ⟨rfl, rfl, id, fun _ => id, absurd rfl, absurd rfl, absurd rfl⟩

theorem steps_retired (stores : Prop) (s : Symbol) :
    s.Steps stores (SymbolTable.retired s) :=
  ⟨rfl, rfl, nofun, fun _ => id, absurd rfl, absurd rfl, absurd rfl⟩

theorem steps_assigned (hs : stores) (value : Option Value) (s : Symbol) :
    s.Steps stores (s.assigned value) := by
  unfold assigned
  split
  · next type ht =>
    exact ⟨rfl, rfl, id, fun _ => id, absurd rfl, absurd rfl, fun _ => .inr ⟨by simp [ht], hs⟩⟩
  · exact .refl _ s

theorem steps_declared (type : DataType) (value : Option Value) (s : Symbol) :
    s.Steps stores (s.declared type value) := by
  unfold declared
  split
  · exact .refl _ s
  · next ht =>
    have hn : s.type = none := by simpa [isTyped] using ht
    exact ⟨rfl, rfl, id, by simp [hn], absurd rfl, absurd rfl, fun _ => .inl ⟨hn, by simp⟩⟩

/-- A symbol without a type that is declared gets the kind, the type and the line. -/
theorem steps_declaring (hn : s.type = none) (kind : SymbolKind) (type : DataType)
    (value : Option Value) (line : Nat) :
    s.Steps stores (SymbolTable.declaring kind type value line s) := by
  have hd : SymbolTable.declaring kind type value line s =
      { s with kind, line, type := some type, value := value.map (·.convert type) } := by
    simp [SymbolTable.declaring, declared, isTyped, hn]
  have hg : s.GetsType (SymbolTable.declaring kind type value line s) := ⟨hn, by simp [hd]⟩
  exact ⟨by rw [hd], by rw [hd], by rw [hd]; exact id, by simp [hn], fun _ => hg, fun _ => hg,
    fun _ => .inl hg⟩

theorem Persists.refl (s : Symbol) : s.Persists s :=
  ⟨rfl, rfl, id, fun _ => ⟨rfl, rfl, rfl⟩, fun _ => rfl⟩

theorem Persists.trans (h : s.Persists s') (h' : s'.Persists s'') : s.Persists s'' where
  name := h'.name.trans h.name
  scope := h'.scope.trans h.scope
  valid hv := h.valid (h'.valid hv)
  typed ht := by
    obtain ⟨htype, hkind, hline⟩ := h.typed ht
    obtain ⟨htype', hkind', hline'⟩ := h'.typed (by rwa [htype])
    exact ⟨htype'.trans htype, hkind'.trans hkind, hline'.trans hline⟩
  untyped ht := by
    have hs' := h'.untyped ht
    have htype : s'.type = none := by rw [← ht, hs']
    rw [hs', h.untyped htype]

/-- What one step does, any number of steps can do. -/
theorem Steps.persists (h : s.Steps stores s') : s.Persists s' where
  name := h.name
  scope := h.scope
  valid := h.valid
  typed ht := by
    obtain ⟨type, hs⟩ := Option.ne_none_iff_exists'.1 ht
    have hno : ¬s.GetsType s' := fun hg => ht hg.1
    exact ⟨(h.type type hs).trans hs.symm, by_contra fun hk => hno (h.kind hk),
      by_contra fun hl => hno (h.line hl)⟩
  untyped ht := by
    have hn : s.type = none := by
      by_contra hs
      obtain ⟨type, hs⟩ := Option.ne_none_iff_exists'.1 hs
      rw [h.type type hs] at ht
      cases ht
    have hno : ¬s.GetsType s' := fun hg => hg.2 ht
    have hkind : s'.kind = s.kind := by_contra fun hk => hno (h.kind hk)
    have hline : s'.line = s.line := by_contra fun hl => hno (h.line hl)
    have hvalue : s'.value = s.value := by_contra fun hv =>
      (h.value hv).elim hno fun hs => hs.1 hn
    obtain ⟨name, kind, type, scope, line, value, valid⟩ := s'
    obtain rfl : name = s.name := h.name
    obtain rfl : scope = s.scope := h.scope
    obtain rfl : kind = s.kind := hkind
    obtain rfl : line = s.line := hline
    obtain rfl : value = s.value := hvalue
    obtain rfl : type = s.type := ht.trans hn.symm
    rfl

/-! ## The value -/

theorem valueFits_untyped (h : s.type = none) (hv : s.value = none) : s.ValueFits :=
  ⟨fun _ => hv, fun type v ht => by simp [h] at ht⟩

theorem valueFits_converted (type : DataType) {value : Option Value} (ht : s.type = some type)
    (hv : s.value = value.map (·.convert type)) : s.ValueFits where
  untyped hn := by simp [ht] at hn
  typed type' v ht' hvoid hv' := by
    obtain rfl := Option.some.inj (ht.symm.trans ht')
    obtain ⟨w, -, rfl⟩ := Option.map_eq_some_iff.1 (hv.symm.trans hv')
    exact Value.type_convert w hvoid

theorem ValueFits.retired (h : s.ValueFits) : (SymbolTable.retired s).ValueFits :=
  ⟨h.untyped, h.typed⟩

theorem ValueFits.assigned (h : s.ValueFits) (value : Option Value) :
    (s.assigned value).ValueFits := by
  unfold Symbol.assigned
  split
  · next type ht => exact valueFits_converted type ht rfl
  · exact h

theorem ValueFits.declared (h : s.ValueFits) (type : DataType) (value : Option Value) :
    (s.declared type value).ValueFits := by
  unfold Symbol.declared
  split
  · exact h
  · exact valueFits_converted type rfl rfl

theorem ValueFits.declaring (h : s.ValueFits) (kind : SymbolKind) (type : DataType)
    (value : Option Value) (line : Nat) :
    (SymbolTable.declaring kind type value line s).ValueFits := by
  have hs : { s with line, kind }.ValueFits := ⟨h.untyped, h.typed⟩
  exact hs.declared type value

end Symbol

namespace SymbolTable

variable {t u : SymbolTable} {name : String} {kind : SymbolKind} {type : DataType}
  {value : Option Value} {line : Nat} {id j : SymbolId} {s : Symbol}

/-! ## One call -/

/-- Every symbol of `t` is one of `u`, and steps to it. -/
def StepsTo (stores : SymbolId → Prop) (t u : SymbolTable) : Prop :=
  ∀ id s, t.get? id = some s → ∃ s', u.get? id = some s' ∧ s.Steps (stores id) s'

variable {stores : SymbolId → Prop}

theorem stepsTo_refl (stores : SymbolId → Prop) (t : SymbolTable) : t.StepsTo stores t :=
  fun _ s hs => ⟨s, hs, .refl _ s⟩

theorem stepsTo_new (hu : t.Updates t.symbols.size s u) : t.StepsTo stores u := by
  intro j s' hs
  have hj : j ≠ t.symbols.size := Nat.ne_of_lt (Array.getElem?_eq_some_iff.1 hs).1
  exact ⟨s', by rw [hu, if_neg hj, hs], .refl _ s'⟩

theorem stepsTo_modify {f : Symbol → Symbol}
    (hf : ∀ s, t.get? id = some s → s.Steps (stores id) (f s)) :
    t.StepsTo stores (t.modify id f) := by
  intro j s hs
  rw [get?_modify]
  split
  · next he =>
    subst he
    exact ⟨f s, by rw [hs, Option.map_some], hf s hs⟩
  · exact ⟨s, hs, .refl _ s⟩

theorem stepsTo_closeScope (h : t.WellFormed) : t.StepsTo stores t.closeScope := by
  rcases Nat.eq_zero_or_pos t.depth with hd | hd
  · rw [closeScope_of_depth_eq_zero hd]
    exact stepsTo_refl stores t
  · intro j s hs
    refine ⟨_, by rw [get?_closeScope h hd, hs, Option.map_some], ?_⟩
    split
    · exact Symbol.steps_retired _ s
    · exact .refl _ s

/-- A call changes the symbols as one step does, and stores a value only in the one it names for
that. -/
theorem steps_perform (h : t.WellFormed) (op : TableOp) :
    t.StepsTo (fun id => ∃ value, op = .assign id value) (t.perform op).2 := by
  cases op with
  | openScope | lookup => exact stepsTo_refl _ t
  | closeScope => exact stepsTo_closeScope h
  | declare name kind type value line =>
    change StepsTo _ t (t.declare name kind type value line).2
    have hd := declare_declares h name kind type value line
    generalize t.declare name kind type value line = r at hd ⊢
    cases hd with
    | redefinition => exact stepsTo_refl _ t
    | typing hs _ _ _ ht =>
      refine stepsTo_modify fun s' hs' => ?_
      obtain rfl := Option.some.inj (hs.symm.trans hs')
      exact Symbol.steps_declaring ht kind type value line
    | new hg _ _ => exact stepsTo_new hg.get?
  | resolve name line =>
    change StepsTo _ t (t.resolve name line).2
    cases hl : t.lookup? name with
    | some id => rw [resolve_of_lookup? line hl]; exact stepsTo_refl _ t
    | none =>
      rw [resolve_of_not_lookup? line hl]
      exact stepsTo_new fun j => get?_insert ..
  | typeSymbol id type value => exact stepsTo_modify fun s _ => s.steps_declared type value
  | assign id value => exact stepsTo_modify fun s _ => s.steps_assigned ⟨value, rfl⟩ value

/-- Every value that is known fits its symbol. -/
def ValuesFit (t : SymbolTable) : Prop := ∀ id s, t.get? id = some s → s.ValueFits

theorem valuesFit_empty : empty.ValuesFit := each_empty _

theorem ValuesFit.modify (hf : t.ValuesFit) {f : Symbol → Symbol}
    (h : ∀ s : Symbol, s.ValueFits → (f s).ValueFits) (id : SymbolId) :
    (t.modify id f).ValuesFit := Each.modify hf h id

theorem ValuesFit.updates (hf : t.ValuesFit) (hs : s.ValueFits) (hu : t.Updates id s u) :
    u.ValuesFit := Each.updates hf hs hu

theorem ValuesFit.closeScope (hf : t.ValuesFit) (h : t.WellFormed) : t.closeScope.ValuesFit :=
  Each.closeScope hf h fun _ _ hs => hs.retired

theorem ValuesFit.declare (hf : t.ValuesFit) (h : t.WellFormed) (name : String) (kind : SymbolKind)
    (type : DataType) (value : Option Value) (line : Nat) :
    (t.declare name kind type value line).2.ValuesFit := by
  have hd := declare_declares h name kind type value line
  generalize t.declare name kind type value line = r at hd ⊢
  cases hd with
  | redefinition => exact hf
  | typing => exact hf.modify (fun s hs => hs.declaring kind type value line) _
  | new hg _ _ => exact hf.updates (Symbol.valueFits_converted type rfl rfl) hg.get?

theorem ValuesFit.resolve (hf : t.ValuesFit) (name : String) (line : Nat) :
    (t.resolve name line).2.ValuesFit := by
  cases hl : t.lookup? name with
  | some id => rwa [resolve_of_lookup? line hl]
  | none =>
    rw [resolve_of_not_lookup? line hl]
    exact hf.updates (Symbol.valueFits_untyped rfl rfl) fun j => get?_insert ..

theorem ValuesFit.perform (hf : t.ValuesFit) (h : t.WellFormed) (op : TableOp) :
    (t.perform op).2.ValuesFit := by
  cases op with
  | openScope | lookup => exact hf
  | closeScope => exact hf.closeScope h
  | declare name kind type value line => exact hf.declare h name kind type value line
  | resolve name line => exact hf.resolve name line
  | typeSymbol id type value => exact hf.modify (fun s hs => hs.declared type value) id
  | assign id value => exact hf.modify (fun s hs => hs.assigned value) id

/-! ## Any sequence of calls -/

theorem ValuesFit.performAll (hf : t.ValuesFit) (h : t.WellFormed) (ops : List TableOp) :
    (t.performAll ops).2.ValuesFit := by
  induction ops generalizing t with
  | nil => exact hf
  | cons op ops ih => exact ih (hf.perform h op) (h.perform op)

theorem persists_performAll (h : t.WellFormed) (hs : t.get? id = some s) (ops : List TableOp) :
    ∃ s', (t.performAll ops).2.get? id = some s' ∧ s.Persists s' := by
  induction ops generalizing t s with
  | nil => exact ⟨s, hs, .refl s⟩
  | cons op ops ih =>
    obtain ⟨s', hs', hstep⟩ := steps_perform h op id s hs
    obtain ⟨s'', hs'', hrest⟩ := ih (h.perform op) hs'
    exact ⟨s'', hs'', hstep.persists.trans hrest⟩

/-- Behind any calls, a symbol that was made is there, with a value that fits its type. The next
call, whichever it is, changes it as one step does, and stores a value in it only if it is an
assignment to its number. Any calls behind leave it its name and its scope, do not bring it back
into scope, and leave it the type it has, with its kind and its line. -/
theorem symbol_lifecycle (ops : List TableOp) :
    let t := (empty.performAll ops).2
    ∀ id s, t.get? id = some s → s.ValueFits ∧
      (∀ op, ∃ s', (t.perform op).2.get? id = some s' ∧
        s.Steps (∃ value, op = .assign id value) s') ∧
      ∀ more, ∃ s', (t.performAll more).2.get? id = some s' ∧ s.Persists s' := by
  intro t id s hs
  have hw : t.WellFormed := wellFormed_empty.performAll ops
  have hf : t.ValuesFit := valuesFit_empty.performAll wellFormed_empty ops
  exact ⟨hf id s hs, fun op => steps_perform hw op id s hs, persists_performAll hw hs⟩

/-- A character that was used before it was declared, behind the declaration of a parameter of the
same name, whatever comes then. -/
theorem lifecycle_of_used_character : ∃ t s,
    t = (empty.performAll [.resolve "x" 3, .declare "x" .identifier .char (some (.int 65)) 5,
      .openScope, .declare "x" .param .int none 6]).2 ∧
      t.get? 0 = some s ∧ s = ⟨"x", .identifier, some .char, 0, 5, some (.char 65), true⟩ ∧
      s.ValueFits ∧
      (∀ op, ∃ s', (t.perform op).2.get? 0 = some s' ∧
        s.Steps (∃ value, op = .assign 0 value) s') ∧
      ∀ more, ∃ s', (t.performAll more).2.get? 0 = some s' ∧ s.Persists s' := by
  have hs : (empty.performAll [.resolve "x" 3,
      .declare "x" .identifier .char (some (.int 65)) 5, .openScope,
      .declare "x" .param .int none 6]).2.get? 0 =
        some ⟨"x", .identifier, some .char, 0, 5, some (.char 65), true⟩ := by cbv
  obtain ⟨hf, hstep, hrun⟩ := symbol_lifecycle _ 0 _ hs
  exact ⟨_, _, rfl, hs, rfl, hf, hstep, hrun⟩

end SymbolTable

end MiniC
