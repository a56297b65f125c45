import MiniC.Proofs.Grammar.NearestElse
import MiniC.Proofs.Scoping
import MiniC.Report

/-!
# What a program declares

An `Entry` is what the report says of a declared name, all but its value. `Program.entries` are
those of a program, in the order of the text : one for each function, one for each parameter with a
name, and one for each variable, with the type that stands in front of its declaration. The scope of
a name is the number of braces that are open around it, where the parameters of a function count as
inside its braces.

The same entries can be read off the events, by a `Register` that keeps the number of open scopes
and the type of the declaration that is being read : `Program.noteAll_events`.
-/

namespace MiniC

/-- What the report says of a declared name, all but its value. -/
structure Entry where
  kind : SymbolKind
  name : String
  type : DataType
  scope : Nat
  line : Nat
deriving DecidableEq, Repr

namespace Entry

/-- The first five cells of the row. -/
def cells (e : Entry) : List String :=
  [e.kind.tag, e.name, e.type.name, toString e.scope, toString e.line]

/-- Whether the report leaves the name out. -/
def isMain (e : Entry) : Bool := e.kind = .function ∧ e.name = "main"

end Entry

/-! ## The declarations of a program -/

def Declarator.entry (type : DataType) (scope : Nat) : Declarator → Entry
  | plain name loc | initialized name loc _ _ => ⟨.identifier, name, type, scope, loc.line⟩

def Declarators.entries (type : DataType) (scope : Nat) : Declarators → List Entry
  | one d => [d.entry type scope]
  | more ds _ d => ds.entries type scope ++ [d.entry type scope]

def Declaration.entries (scope : Nat) (d : Declaration) : List Entry :=
  d.declarators.entries d.type scope

/-- A parameter without a name declares nothing. -/
def Parameter.entries (p : Parameter) : List Entry :=
  p.name.elim [] fun (name, loc) => [⟨.param, name, p.type, 1, loc.line⟩]

def ParameterList.entries : ParameterList → List Entry
  | one p => p.entries
  | more p _ ps => p.entries ++ ps.entries

def Parameters.entries : Parameters → List Entry
  | empty | void _ => []
  | list ps => ps.entries

/-- The declarations of code with `scope` open braces around it. -/
def Code.entries (scope : Nat) {part : Part} : Code part → List Entry
  | declaration d => d.entries scope
  | block _ items _ => items.entries (scope + 1)
  | ifElse _ _ _ _ yes _ no => yes.entries scope ++ no.entries scope
  | more items item => items.entries scope ++ item.entries scope
  | ifThen _ _ _ _ s | whileLoop _ _ _ _ s | forLoop _ _ _ _ s | statement s | one s =>
    s.entries scope
  | returned _ _ _ | emptyBlock _ _ | simple _ => []

def Items.entries (scope : Nat) (items : Items) : List Entry := items.elim [] (Code.entries scope)

/-- A function of the given type, its parameters, and the declarations of its body. -/
def Definition.entries (type : DataType) (f : Definition) : List Entry :=
  ⟨.function, f.name, type, 0, f.loc.line⟩ :: f.parameters.entries ++ f.body.entries 1

/-- A function whose type was left out is of type `int`. -/
def External.entries : External → List Entry
  | function f => f.entries .int
  | typedFunction type _ f => f.entries type
  | declaration d => d.entries 0

def Externals.entries : Externals → List Entry
  | one x => x.entries
  | more xs x => xs.entries ++ x.entries

def Program.entries (p : Program) : List Entry := p.elim [] Externals.entries

/-! ## The derivation does not matter

Derivations of one text differ in the conditional statements that their else branches belong to. An
else branch stays behind all that it can follow, wherever it belongs. -/

theorem Code.entries_attach : ∀ (s : Code .statement) (elseLoc : Location) (no : Code .statement)
    (scope : Nat), s.isOpen = true →
      (s.attach elseLoc no).entries scope = s.entries scope ++ no.entries scope
  | ifThen loc left condition right yes, elseLoc, no, scope, _ => by
    rw [attach]
    split
    · next hyes => exact entries_attach yes elseLoc no scope hyes
    · rfl
  | ifElse loc left condition right yes loc' no', elseLoc, no, scope, h => by
    simp [attach, entries, entries_attach no' elseLoc no scope h]
  | whileLoop loc left condition right body, elseLoc, no, scope, h
  | forLoop loc left clauses right body, elseLoc, no, scope, h => by
    simp [attach, entries, entries_attach body elseLoc no scope h]

theorem Code.entries_nearest {part : Part} (c : Code part) (scope : Nat) :
    c.nearest.entries scope = c.entries scope := by
  induction c generalizing scope with
  | ifElse loc left condition right yes elseLoc no ihy ihn =>
    rw [nearest]
    split
    · next hyes => simp [entries, entries_attach _ elseLoc no.nearest scope hyes, ihy, ihn]
    · simp [entries, ihy, ihn]
  | more items item ihs ih => simp [nearest, entries, ihs, ih]
  | ifThen _ _ _ _ _ ih | whileLoop _ _ _ _ _ ih | forLoop _ _ _ _ _ ih | block _ _ _ ih
  | statement _ ih | one _ ih => exact ih _
  | returned | emptyBlock | simple | declaration => rfl

theorem Definition.entries_nearest (f : Definition) (type : DataType) :
    f.nearest.entries type = f.entries type := by
  have hbody : f.body.nearest.entries 1 = f.body.entries 1 := by
    cases f.body with
    | none => rfl
    | some code => exact code.entries_nearest 1
  simp [nearest, entries, hbody]

theorem Externals.entries_nearest (xs : Externals) : xs.nearest.entries = xs.entries := by
  have hone : ∀ x : External, x.nearest.entries = x.entries := by
    intro x
    cases x with
    | function f => exact f.entries_nearest .int
    | typedFunction type _ f => exact f.entries_nearest type
    | declaration d => rfl
  induction xs with
  | one x => exact hone x
  | more xs x ih => simp [nearest, entries, ih, hone x]

theorem Program.entries_nearest (p : Program) : p.nearest.entries = p.entries := by
  cases p with
  | none => rfl
  | some xs => exact xs.entries_nearest

/-! ## Reading them off the events -/

namespace Rule

/-- The type of the declaration that is being read, behind the rule. -/
@[simp] def typeBehind : Rule → Option DataType → Option DataType
  | typeSpecifier type, _ => some type
  | functionDeclarator _ _, _ | declaration, _ => none
  | _, type => type

/-- What the rule declares, in the declaration and the scope that are being read. -/
@[simp] def listed? (rule : Rule) (type : Option DataType) (depth line : Nat) : Option Entry :=
  match rule with
  | functionDeclarator name typed =>
    some ⟨.function, name, if typed then type.getD .int else .int, depth, line⟩
  | parameter name type => some ⟨.param, name, type, depth, line⟩
  | declTarget name | declarator name => some ⟨.identifier, name, type.getD .int, depth, line⟩
  | _ => none

end Rule

/-- What was declared so far, and what a declaration takes from the events before it. -/
structure Register where
  /-- The type of the declaration that is being read. -/
  type : Option DataType
  /-- The number of open scopes inside the global one. -/
  depth : Nat
  entries : List Entry

namespace Register

/-- Nothing was noted. -/
def start : Register := ⟨none, 0, []⟩

/-- Notes one event. -/
@[simp] def note (r : Register) (event : Event) : Register where
  type := event.rule.typeBehind r.type
  depth := event.rule.depthBehind r.depth
  entries := r.entries ++ (event.rule.listed? r.type r.depth event.location.line).toList

/-- Notes the events one after the other. -/
def noteAll (r : Register) (events : List Event) : Register := events.foldl note r

@[simp] theorem noteAll_nil (r : Register) : r.noteAll [] = r := rfl

@[simp] theorem noteAll_cons (r : Register) (event : Event) (events : List Event) :
    r.noteAll (event :: events) = (r.note event).noteAll events := rfl

@[simp] theorem noteAll_append (r : Register) (events more : List Event) :
    r.noteAll (events ++ more) = (r.noteAll events).noteAll more := List.foldl_append

/-- Enters names one after the other. -/
def add (r : Register) (entries : List Entry) : Register :=
  { r with entries := r.entries ++ entries }

@[simp] theorem add_add (r : Register) (entries more : List Entry) :
    (r.add entries).add more = r.add (entries ++ more) := by
  simp [add]

@[simp] theorem add_nil (r : Register) : r.add [] = r := by
  simp [add]

end Register

open Register

variable {r : Register}

/-- An expression declares nothing. -/
@[simp] theorem Term.noteAll_events {tier : Tier} (e : Term tier) (r : Register) :
    r.noteAll e.events = r := by
  induction e <;> simp_all [events, Rule.depthBehind]

namespace Declarator

theorem noteAll_events (d : Declarator) {type : DataType} (h : r.type = some type) :
    r.noteAll d.events = r.add [d.entry type r.depth] := by
  cases d <;> simp [events, Rule.depthBehind, entry, add, h]

end Declarator

theorem Declarators.noteAll_events (ds : Declarators) {type : DataType} (h : r.type = some type) :
    r.noteAll ds.events = r.add (ds.entries type r.depth) := by
  induction ds with
  | one d => exact d.noteAll_events h
  | more ds comma d ih =>
    have hd : (r.add (ds.entries type r.depth)).noteAll d.events =
        (r.add (ds.entries type r.depth)).add [d.entry type r.depth] := d.noteAll_events h
    simp [events, entries, ih, hd, Rule.depthBehind]

/-- Behind a declaration its type is forgotten. -/
theorem Declaration.noteAll_events (d : Declaration) (h : r.type = none) :
    r.noteAll d.events = r.add (d.entries r.depth) := by
  have hds := d.declarators.noteAll_events (r := { r with type := some d.type }) rfl
  simp [events, entries, Rule.depthBehind, hds, add, h]

theorem Parameter.noteAll_events (p : Parameter) (h : r.depth = 1) :
    r.noteAll p.events = r.add p.entries := by
  obtain ⟨type, loc, _ | ⟨name, nameLoc⟩⟩ := p
  · simp [events, entries]
  · simp [events, entries, Rule.depthBehind, add, h]

theorem ParameterList.noteAll_events (ps : ParameterList) (h : r.depth = 1) :
    r.noteAll ps.events = r.add ps.entries := by
  induction ps generalizing r with
  | one p => exact p.noteAll_events h
  | more p comma ps ih => simp [events, entries, p.noteAll_events h, ih (r := r.add p.entries) h]

theorem Parameters.noteAll_events (ps : Parameters) (h : r.depth = 1) :
    r.noteAll ps.events = r.add ps.entries := by
  cases ps with
  | empty | void => simp [events, entries]
  | list ps => exact ps.noteAll_events h

@[simp] theorem Simple.noteAll_events (s : Simple) (r : Register) : r.noteAll s.events = r := by
  cases s <;> simp [events, Rule.depthBehind]

theorem Clauses.noteAll_events (c : Clauses) (close : Location) (r : Register) :
    r.noteAll (c.events close) = r := by
  obtain ⟨init, condition, _ | e⟩ := c
  · simp [events, Rule.depthBehind]
  · simp [events]

/-- Between two declarations no type is left over. -/
theorem Code.noteAll_events {part : Part} (code : Code part) (h : r.type = none) :
    r.noteAll code.events = r.add (code.entries r.depth) := by
  induction code generalizing r with
  | returned loc value semicolon =>
    cases value <;> simp [events, entries, Rule.depthBehind]
  | ifThen loc left condition right s ih | whileLoop loc left condition right s ih =>
    simp [events, entries, Rule.depthBehind, ih h]
  | ifElse loc left condition right yes elseLoc no ihy ihn =>
    have hno : (r.add (yes.entries r.depth)).noteAll no.events =
        (r.add (yes.entries r.depth)).add (no.entries r.depth) := ihn h
    simp [events, entries, Rule.depthBehind, ihy h, hno]
  | forLoop loc left clauses right body ih =>
    simp [events, entries, Rule.depthBehind, clauses.noteAll_events, ih h]
  | emptyBlock opening closing => simp [events, entries, Rule.depthBehind]
  | block opening items closing ih =>
    have hin := ih (r := { r with depth := r.depth + 1 }) h
    simp [events, entries, Rule.depthBehind, hin, add]
  | simple s => simp [events, entries]
  | declaration d => exact d.noteAll_events h
  | statement s ih => exact ih h
  | one item ih => exact ih h
  | more items item ihs ih =>
    have hitem : (r.add (items.entries r.depth)).noteAll item.events =
        (r.add (items.entries r.depth)).add (item.entries r.depth) := ih h
    simp [events, entries, Rule.depthBehind, ihs h, hitem]

theorem Items.noteAll_events (items : Items) (closing : Location) (h : r.type = none) :
    r.noteAll (items.events closing) = r.add (items.entries r.depth) := by
  cases items with
  | none => simp [events, entries, Rule.depthBehind]
  | some code => exact code.noteAll_events h

/-- A function of the type that was noted in front of it, or `int`. -/
theorem Definition.noteAll_events (f : Definition) (typed : Bool) (h : r.depth = 0) :
    r.noteAll (f.events typed) = { r.add (f.entries (if typed then r.type.getD .int else .int)) with
      type := none } := by
  let inside : Register :=
    ⟨none, 1, r.entries ++ [⟨.function, f.name, if typed then r.type.getD .int else .int, 0,
      f.loc.line⟩]⟩
  have hname : r.note ⟨.functionDeclarator f.name typed, f.loc⟩ = inside := by
    simp [Rule.depthBehind, h, inside]
  have hparameters : inside.noteAll f.parameters.events = inside.add f.parameters.entries :=
    f.parameters.noteAll_events rfl
  have hbody : (inside.add f.parameters.entries).noteAll (f.body.events f.closing) =
      (inside.add f.parameters.entries).add (f.body.entries 1) :=
    f.body.noteAll_events f.closing rfl
  simp only [events, List.cons_append, noteAll_cons, noteAll_append, hname, hparameters, hbody]
  simp [Rule.depthBehind, entries, add, inside, h]

theorem External.noteAll_events (x : External) (ht : r.type = none) (hd : r.depth = 0) :
    r.noteAll x.events = r.add x.entries := by
  cases x with
  | function f =>
    have hf := f.noteAll_events false hd
    simp [events, entries, hf, add, ht]
  | typedFunction type loc f =>
    have hf := f.noteAll_events (r := { r with type := some type }) true hd
    simp [events, entries, Rule.depthBehind, hf, add, ht]
  | declaration d =>
    have h := d.noteAll_events ht
    rwa [hd] at h

theorem Externals.noteAll_events (xs : Externals) (ht : r.type = none) (hd : r.depth = 0) :
    r.noteAll xs.events = r.add xs.entries := by
  induction xs with
  | one x => exact x.noteAll_events ht hd
  | more xs x ih =>
    have hx := x.noteAll_events (r := r.add xs.entries) ht hd
    simp [events, entries, Rule.depthBehind, ih, hx]

/-- The events of a program declare what the program does. -/
theorem Program.noteAll_events (p : Program) :
    Register.start.noteAll p.events = Register.start.add p.entries := by
  cases p with
  | none => rfl
  | some xs => exact xs.noteAll_events rfl rfl

end MiniC
