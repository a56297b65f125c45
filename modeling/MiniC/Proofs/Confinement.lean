import MiniC.Proofs.Atomicity
import MiniC.Proofs.Context
import MiniC.Proofs.Symbol.Lifecycle
import MiniC.Proofs.Visibility

/-!
# An event changes what it names

What completing a rule may change among the symbols is said rule by rule in `Analyzer.Confines` :
the end of a scope makes the symbols of the scope invalid, an assignment changes the value of the
symbol on its left, an initializer the value of the latest variable that waits for one, a
declaration makes one symbol or gives a type to one of its name, a use of a name makes at most one,
and no other rule changes any.

The variables that wait are read off the events by `awaiting`, and are those that the state holds
(`Analyzer.pending_attemptAll`). `Analyzer.apply_confines` is confinement for one state, and
`Analyzer.apply_confined` for every state behind events that may have been rejected.
-/

namespace MiniC

/-- The symbol that a declaration made or gave a type. -/
def Declared.given? : Declared → Option SymbolId
  | redefinition _ => none
  | declared => some declared.id

namespace SymbolTable

variable {t u : SymbolTable} {name : String} {kind : SymbolKind} {line : Nat} {id : SymbolId}
  {may : SymbolId → Symbol → Symbol → Prop} {more : List Diagnostic}

/-! ## What may change among the symbols -/

/-- No symbol is changed, and none is made. -/
def SameSymbols (t u : SymbolTable) : Prop := ∀ id, u.get? id = t.get? id

/-- No symbol is made, and each is as it was or changed as `may` says. -/
def ChangesOnly (may : SymbolId → Symbol → Symbol → Prop) (t u : SymbolTable) : Prop :=
  ∀ id, u.get? id = t.get? id ∨
    ∃ s s', t.get? id = some s ∧ u.get? id = some s' ∧ may id s s'

/-- The symbol `s` is made behind all others, and none is changed. -/
def Makes (s : Symbol) (t u : SymbolTable) : Prop := t.Updates t.symbols.size s u

/-- The symbol of the name in the current scope gets a type, which it did not have, and no other is
changed. -/
def Types (name : String) (kind : SymbolKind) (line : Nat) (t u : SymbolTable) : Prop :=
  ∃ id s type, t.get? id = some s ∧ s.name = name ∧ s.scope = t.depth ∧ s.valid = true ∧
    s.type = none ∧ t.Updates id { s with kind, type := some type, line, value := none } u

/-- A declaration that reports `more` : a redefinition, which changes no symbol, or none, and then
a symbol with a type is made or one of the name gets its type. -/
def DeclaresOnly (name : String) (kind : SymbolKind) (line : Nat) (more : List Diagnostic)
    (t u : SymbolTable) : Prop :=
  ⟨line, .redefinition name⟩ ∈ more ∧ t.SameSymbols u ∨
    (∀ d ∈ more, d.problem ≠ .redefinition name) ∧
      ((∃ type, t.Makes ⟨name, kind, some type, t.depth, line, none, true⟩ u) ∨
        t.Types name kind line u)

/-- A use that reports `more` : a symbol without a type is made for a name that is reported as
undeclared, or none. -/
def UsesOnly (name : String) (line : Nat) (more : List Diagnostic) (t u : SymbolTable) : Prop :=
  t.SameSymbols u ∨ ⟨line, .undeclared name⟩ ∈ more ∧
    t.Makes ⟨name, .identifier, none, t.depth, line, none, true⟩ u

theorem sameSymbols_refl (t : SymbolTable) : t.SameSymbols t := fun _ => rfl

theorem SameSymbols.changesOnly (h : t.SameSymbols u) : t.ChangesOnly may u := fun id => .inl (h id)

theorem changesOnly_closeScope (h : t.WellFormed) :
    t.ChangesOnly (fun _ s s' => 0 < t.depth ∧ s.scope = t.depth ∧ s' = { s with valid := false })
      t.closeScope := by
  rcases Nat.eq_zero_or_pos t.depth with hd | hd
  · rw [closeScope_of_depth_eq_zero hd]
    exact (sameSymbols_refl t).changesOnly
  · intro j
    rw [get?_closeScope h hd]
    cases hs : t.get? j with
    | none => exact .inl rfl
    | some s =>
      rw [Option.map_some]
      split
      · next hscope => exact .inr ⟨s, _, rfl, rfl, hd, hscope, rfl⟩
      · exact .inl rfl

/-- An assignment changes a value, and no value of another symbol. -/
theorem changesOnly_assign (t : SymbolTable) (id : SymbolId) (value : Option Value) :
    t.ChangesOnly (fun j s s' => j = id ∧ ∃ value, s' = { s with value }) (t.assign id value) := by
  intro j
  rw [assign, get?_modify]
  split
  · next hj =>
    cases hs : t.get? j with
    | none => exact .inl rfl
    | some s =>
      rw [Option.map_some, Symbol.assigned]
      split
      · exact .inr ⟨s, _, rfl, rfl, hj.symm, _, rfl⟩
      · exact .inl rfl
  · exact .inl rfl

theorem ChangesOnly.imp {may' : SymbolId → Symbol → Symbol → Prop} (h : t.ChangesOnly may u)
    (hm : ∀ id s s', may id s s' → may' id s s') : t.ChangesOnly may' u := by
  intro id
  rcases h id with he | ⟨s, s', hs, hs', hmay⟩
  · exact .inl he
  · exact .inr ⟨s, s', hs, hs', hm id s s' hmay⟩

theorem ChangesOnly.get?_or_may {s' : Symbol} (h : t.ChangesOnly may u)
    (hs' : u.get? id = some s') :
    t.get? id = some s' ∨ ∃ s, t.get? id = some s ∧ may id s s' := by
  rcases h id with he | ⟨s, s'', hs, hs'', hmay⟩
  · exact .inl (he ▸ hs')
  · obtain rfl := Option.some.inj (hs''.symm.trans hs')
    exact .inr ⟨s, hs, hmay⟩

theorem types_modify {s : Symbol} {type : DataType} (hs : t.get? id = some s)
    (hn : s.name = name) (hd : s.scope = t.depth) (hv : s.valid = true) (ht : s.type = none) :
    t.Types name kind line (t.modify id (declaring kind type none line)) := by
  refine ⟨id, s, type, hs, hn, hd, hv, ht, fun j => ?_⟩
  rw [get?_modify]
  by_cases hj : j = id
  · subst hj
    rw [if_pos rfl, if_pos rfl, hs, Option.map_some, declaring, Symbol.declared, if_neg]
    · rfl
    · simp [Symbol.isTyped, ht]
  · rw [if_neg (Ne.symm hj), if_neg hj]

/-- What is reported in front does not matter, if it is no redefinition. -/
theorem DeclaresOnly.append {front : List Diagnostic}
    (h : t.DeclaresOnly name kind line more u)
    (hf : ∀ d ∈ front, d.problem ≠ .redefinition name) :
    t.DeclaresOnly name kind line (front ++ more) u := by
  rcases h with ⟨hr, hs⟩ | ⟨hn, hu⟩
  · exact .inl ⟨List.mem_append_right front hr, hs⟩
  · exact .inr ⟨List.forall_mem_append.2 ⟨hf, hn⟩, hu⟩

theorem DeclaresOnly.openScope (h : t.DeclaresOnly name kind line more u) :
    t.DeclaresOnly name kind line more u.openScope := h

end SymbolTable

open SymbolTable

namespace Analyzer

variable {a b : Analyzer} {event : Event} {events : List Event} {name : String} {line : Nat}
  {more : List Diagnostic}

/-- The symbol that the left operand of an assignment names. -/
def left? (a : Analyzer) : Option SymbolId := a.operands[1]?.bind Operand.symbol

/-- What completing a rule may change among the symbols, while `waiting` are the variables that wait
for their initializers and `more` is reported. -/
def Confines (a : Analyzer) (waiting : List Declared) (line : Nat) (more : List Diagnostic)
    (r : Rule) (u : SymbolTable) : Prop :=
  match r with
  | .closeScope | .functionDefinition _ _ =>
    a.symbols.ChangesOnly (fun _ s s' => 0 < a.symbols.depth ∧ s.scope = a.symbols.depth ∧
      s' = { s with valid := false }) u
  | .assign _ =>
    a.symbols.ChangesOnly (fun id s s' => a.left? = some id ∧ ∃ value, s' = { s with value }) u
  | .initDeclarator _ =>
    a.symbols.ChangesOnly (fun id s s' => waiting.head?.bind Declared.given? = some id ∧
      ∃ value, s' = { s with value }) u
  | .functionDeclarator name _ => a.symbols.DeclaresOnly name .function line more u
  | .parameter name _ => a.symbols.DeclaresOnly name .param line more u
  | .declTarget name | .declarator name => a.symbols.DeclaresOnly name .identifier line more u
  | .identifier name => a.symbols.UsesOnly name line more u
  | _ => a.symbols.SameSymbols u

/-! ## One state -/

theorem declare_confines (h : a.symbols.WellFormed) (name : String) (kind : SymbolKind)
    (type : DataType) (line : Nat) :
    ∃ more, (a.declare name kind type line).2.diagnostics = a.diagnostics ++ more ∧
      a.symbols.DeclaresOnly name kind line more (a.declare name kind type line).2.symbols := by
  have hd := declare_declares h name kind type none line
  unfold declare
  generalize a.symbols.declare name kind type none line = r at hd ⊢
  cases hd with
  | redefinition => exact ⟨_, rfl, .inl ⟨List.mem_singleton.2 rfl, sameSymbols_refl _⟩⟩
  | typing hs hv hn hd ht =>
    refine ⟨[], (List.append_nil _).symm, .inr ⟨List.forall_mem_nil _, .inr ?_⟩⟩
    exact types_modify hs hn hd hv ht
  | new hg _ hne =>
    dsimp only
    split
    · exact (hne _ rfl).elim
    · exact ⟨[], (List.append_nil _).symm, .inr ⟨List.forall_mem_nil _, .inl ⟨type, hg.get?⟩⟩⟩

theorem functionDeclarator_confines (h : a.symbols.WellFormed) (name : String) (typed : Bool)
    (line : Nat) :
    ∃ more, (a.functionDeclarator name typed line).diagnostics = a.diagnostics ++ more ∧
      a.symbols.DeclaresOnly name .function line more
        (a.functionDeclarator name typed line).symbols := by
  obtain ⟨front, hf, hn⟩ : ∃ front,
      (a.reportIf (!typed) line .missingType).diagnostics = a.diagnostics ++ front ∧
        ∀ d ∈ front, d.problem ≠ .redefinition name := by
    cases typed
    · exact ⟨[⟨line, .missingType⟩], rfl, by simp⟩
    · exact ⟨[], (List.append_nil _).symm, List.forall_mem_nil _⟩
  obtain ⟨more, hm, hc⟩ := declare_confines (a := a.reportIf (!typed) line .missingType)
    (by simpa using h) name .function (if typed then a.declaredType else .int) line
  rw [symbols_reportIf] at hc
  rw [functionDeclarator_eq]
  refine ⟨front ++ more, ?_, (hc.append hn).openScope⟩
  dsimp only
  rw [hm, hf, List.append_assoc]

theorem identifier_confines
    (hm : (a.identifier name line).diagnostics = a.diagnostics ++ more) :
    a.symbols.UsesOnly name line more (a.identifier name line).symbols := by
  rw [symbols_identifier]
  cases hl : a.symbols.lookup? name with
  | some id =>
    rw [resolve_of_lookup? line hl]
    exact .inl (sameSymbols_refl _)
  | none =>
    rw [diagnostics_identifier_of_not_lookup? hl, List.append_cancel_left_eq] at hm
    rw [resolve_of_not_lookup? line hl]
    exact .inr ⟨hm ▸ List.mem_singleton.2 rfl, fun j => get?_insert ..⟩

theorem assign_confines {op : AssignOp} (h : a.assign op line = .ok b) :
    a.symbols.ChangesOnly (fun id s s' => a.left? = some id ∧ ∃ value, s' = { s with value })
      b.symbols := by
  have ht := assign_touches h
  generalize b.symbols = u at ht ⊢
  cases ht with
  | idle => exact (sameSymbols_refl _).changesOnly
  | assign _ ho hi value =>
    refine (changesOnly_assign _ _ value).imp fun id s s' hm => ?_
    obtain ⟨rfl, hv⟩ := hm
    refine ⟨?_, hv⟩
    rw [left?, ho]
    exact hi

theorem initDeclarator_confines (h : a.initDeclarator line = .ok b) :
    a.symbols.ChangesOnly (fun id s s' => a.pending.head?.bind Declared.given? = some id ∧
      ∃ value, s' = { s with value }) b.symbols := by
  rcases symbols_initDeclarator h with hs | ⟨declared, pending, value, hp, hne, hs⟩
  · rw [hs]
    exact (sameSymbols_refl _).changesOnly
  · rw [hs]
    refine (changesOnly_assign _ _ value).imp fun id s s' hm => ?_
    obtain ⟨rfl, hv⟩ := hm
    refine ⟨?_, hv⟩
    rw [hp]
    cases declared with
    | redefinition id => exact (hne id rfl).elim
    | fresh | shadowing => rfl

/-- An event reports behind what was reported before, and changes what its rule names. -/
theorem apply_confines (hw : a.symbols.WellFormed) (h : a.apply event = .ok b) :
    ∃ more, b.diagnostics = a.diagnostics ++ more ∧
      a.Confines a.pending event.location.line more event.rule b.symbols := by
  obtain ⟨more, hm, -⟩ := apply_adds h
  have ht := apply_touches h
  obtain ⟨rule, loc⟩ := event
  cases rule
  case functionDeclarator name typed =>
    obtain rfl := Except.ok.inj h
    exact functionDeclarator_confines hw name typed loc.line
  case parameter name type =>
    obtain rfl := Except.ok.inj h
    exact declare_confines hw name .param type loc.line
  case declTarget name | declarator name =>
    obtain rfl := Except.ok.inj h
    exact declare_confines hw name .identifier a.declaredType loc.line
  case identifier name =>
    obtain rfl := Except.ok.inj h
    exact ⟨more, hm, identifier_confines hm⟩
  case initDeclarator name => exact ⟨more, hm, initDeclarator_confines h⟩
  case assign op => exact ⟨more, hm, assign_confines h⟩
  -- what the others report says nothing about the symbols
  all_goals
    refine ⟨more, hm, ?_⟩
    generalize b.symbols = u at ht ⊢
    cases ht
  case closeScope.closeScope | functionDefinition.functionDefinition =>
    exact changesOnly_closeScope hw
  case closeScope.idle hr | functionDefinition.idle hr => cases hr
  all_goals exact sameSymbols_refl _

/-! ## The variables that wait for their initializers -/

/-- The variables that wait behind one more event. A variable waits from the event of its name on,
and the next initializer that is completed is that of the latest one. -/
def awaiting (a : Analyzer) (waiting : List Declared) (event : Event) : List Declared :=
  match event.rule with
  | .declTarget name =>
    (a.symbols.declare name .identifier a.declaredType none event.location.line).1 :: waiting
  | .initDeclarator _ => if a.stackDepth < event.rule.arity then waiting else waiting.tail
  | _ => waiting

/-- The variables that wait behind events that begin in the state `a`, in which `waiting` do. -/
def awaitingAll (a : Analyzer) (waiting : List Declared) : List Event → List Declared
  | [] => waiting
  | event :: events => (a.attempt event).awaitingAll (a.awaiting waiting event) events

theorem declare_fst (a : Analyzer) (name : String) (kind : SymbolKind) (type : DataType)
    (line : Nat) : (a.declare name kind type line).1 =
      (a.symbols.declare name kind type none line).1 := by
  simp only [declare]
  split <;> rfl

theorem pending_apply (h : a.apply event = .ok b) (hn : event.rule.arity ≤ a.stackDepth) :
    b.pending = a.awaiting a.pending event := by
  have hkeep := fun hr => (sameContext_apply h hr).pending
  obtain ⟨rule, loc⟩ := event
  cases rule
  case declTarget name =>
    obtain rfl := Except.ok.inj h
    have hd := sameContext_declare a name .identifier a.declaredType loc.line
    exact congrArg₂ List.cons (declare_fst ..) hd.pending
  case initDeclarator =>
    rw [awaiting, if_neg (Nat.not_lt.2 hn)]
    exact (sameContext_initDeclarator h).pending
  case typeSpecifier | declaration =>
    obtain rfl := Except.ok.inj h
    rfl
  case functionDeclarator name typed =>
    obtain rfl := Except.ok.inj h
    rw [functionDeclarator_eq]
    exact (sameContext_declare ..).pending.trans (sameContext_reportIf ..).pending
  all_goals exact hkeep rfl

theorem pending_attempt (h : a.Paired) (event : Event) :
    (a.attempt event).pending = a.awaiting a.pending event := by
  rcases Nat.lt_or_ge a.stackDepth event.rule.arity with hn | hn
  · rw [attempt_of_lt h hn]
    obtain ⟨rule, loc⟩ := event
    cases rule
    -- the name of a variable is never rejected
    case declTarget => exact (Nat.not_lt_zero _ hn).elim
    case initDeclarator => exact (if_pos hn).symm
    all_goals rfl
  · exact pending_apply (apply_attempt h hn) hn

/-- The state holds the variables that wait. -/
theorem pending_attemptAll (h : a.Paired) (events : List Event) :
    (a.attemptAll events).pending = a.awaitingAll a.pending events := by
  induction events generalizing a with
  | nil => rfl
  | cons event events ih =>
    rw [awaitingAll, ← pending_attempt h]
    exact ih (paired_attempt h event)

/-! ## Any state -/

theorem wellFormed_attempt (h : a.Paired) (hw : a.symbols.WellFormed) (event : Event) :
    (a.attempt event).symbols.WellFormed := by
  rcases Nat.lt_or_ge a.stackDepth event.rule.arity with hn | hn
  · rwa [attempt_of_lt h hn]
  · exact ((apply_touches (apply_attempt h hn)).scopes hw).wellFormed

theorem wellFormed_attemptAll (h : a.Paired) (hw : a.symbols.WellFormed) (events : List Event) :
    (a.attemptAll events).symbols.WellFormed := by
  induction events generalizing a with
  | nil => exact hw
  | cons event events ih => exact ih (paired_attempt h event) (wellFormed_attempt h hw event)

/-- Behind any events, rejected or not, an event that is applied reports behind what was reported
before, and changes what its rule names and nothing else. -/
theorem apply_confined (events : List Event) (h : (start.attemptAll events).apply event = .ok b) :
    ∃ more, b.diagnostics = (start.attemptAll events).diagnostics ++ more ∧
      (start.attemptAll events).Confines (start.awaitingAll [] events) event.location.line more
        event.rule b.symbols := by
  have hw := wellFormed_attemptAll paired_start wellFormed_empty events
  rw [show start.awaitingAll [] events = (start.attemptAll events).pending from
    (pending_attemptAll paired_start events).symm]
  exact apply_confines hw h

/-- The events of `int x=1; int x=2`, up to the second initializer. -/
def redefinedVariable : List Event :=
  [⟨.typeSpecifier .int, ⟨1, 1⟩⟩, ⟨.declTarget "x", ⟨1, 5⟩⟩, ⟨.literal (.int 1), ⟨1, 7⟩⟩,
    ⟨.initDeclarator "x", ⟨1, 5⟩⟩, ⟨.declaration, ⟨1, 1⟩⟩, ⟨.typeSpecifier .int, ⟨1, 10⟩⟩,
    ⟨.declTarget "x", ⟨1, 14⟩⟩, ⟨.literal (.int 2), ⟨1, 16⟩⟩]

/-- The initializer of a variable that was defined before changes no symbol. -/
theorem redefined_initializer_confined : ∃ b more,
    start.awaitingAll [] redefinedVariable = [.redefinition 0] ∧
    (start.attemptAll redefinedVariable).apply ⟨.initDeclarator "x", ⟨1, 14⟩⟩ = .ok b ∧
    b.diagnostics = [⟨1, .redefinition "x"⟩] ++ more ∧
    (start.attemptAll redefinedVariable).symbols.SameSymbols b.symbols := by
  have hdepth : (start.attemptAll redefinedVariable).stackDepth = 3 := by cbv
  have hd : (start.attemptAll redefinedVariable).diagnostics = [⟨1, .redefinition "x"⟩] := by cbv
  have hw : start.awaitingAll [] redefinedVariable = [.redefinition 0] := by cbv
  have hb : (start.attemptAll redefinedVariable).apply ⟨.initDeclarator "x", ⟨1, 14⟩⟩ = .ok _ :=
    apply_attempt (paired_attemptAll paired_start redefinedVariable) (hdepth.symm ▸ Nat.le_succ 2)
  obtain ⟨more, hm, hc⟩ := apply_confined redefinedVariable hb
  rw [hd] at hm
  rw [hw] at hc
  refine ⟨_, more, hw, hb, hm, fun id => ?_⟩
  rcases hc id with he | ⟨s, s', -, -, hnone, -⟩
  · exact he
  · cases hnone

end Analyzer

end MiniC
