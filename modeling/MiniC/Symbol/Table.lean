import Std.Data.HashMap
import MiniC.Symbol

/-!
# The symbol table

A `SymbolTable` keeps every symbol it ever made, numbered in order, and two indexes to the valid
ones : by name, the innermost first, and by scope. Closing a scope makes its symbols invalid and
takes them out of both indexes; nothing is ever deleted.

`SymbolTable.lookup?` finds the innermost valid symbol of a name. `SymbolTable.resolve` makes an
untyped symbol in the current scope if there is none. `SymbolTable.declare` gives a name a type in
the current scope and answers with a `Declared` : the symbol is new there, or hides one of an
enclosing scope, or had a type already and stays as it was.
-/

namespace MiniC

/-- The number of a symbol in the order in which symbols were made. -/
abbrev SymbolId := Nat

/-- The answer to a use of a name. -/
structure Resolution where
  id : SymbolId
  /-- The symbol belongs to an enclosing scope. -/
  inherited : Bool
  /-- There was no valid symbol, and this one was made. -/
  created : Bool
deriving DecidableEq, Inhabited, Repr

/-- The answer to a declaration of a name. -/
inductive Declared where
  /-- The symbol is new, or was used before in its scope and now has a type. -/
  | fresh (id : SymbolId)
  /-- The symbol is new and hides one of an enclosing scope. -/
  | shadowing (id hidden : SymbolId)
  /-- The symbol had a type in this scope before, and stays as it was. -/
  | redefinition (id : SymbolId)
deriving DecidableEq, Inhabited, Repr

namespace Declared

/-- The symbol that the name stands for after the declaration. -/
def id : Declared → SymbolId
  | fresh id => id
  | shadowing id _ => id
  | redefinition id => id

end Declared

/-- All symbols, with the indexes to the valid ones. -/
structure SymbolTable where
  /-- Every symbol at its number. -/
  symbols : Array Symbol
  /-- For each name its valid symbols, the innermost first. -/
  live : Std.HashMap String (List SymbolId)
  /-- The valid symbols of each nested open scope, the innermost scope first. -/
  inner : List (List SymbolId)
  /-- The valid symbols of the global scope. -/
  outer : List SymbolId

namespace SymbolTable

/-- No symbols, and no scope open but the global one. -/
def empty : SymbolTable := ⟨#[], ∅, [], []⟩

instance : Inhabited SymbolTable := ⟨empty⟩

/-- The number of scopes that are open inside the global one. -/
def depth (t : SymbolTable) : Nat := t.inner.length

/-- The symbol with number `id`. -/
def get? (t : SymbolTable) (id : SymbolId) : Option Symbol := t.symbols[id]?

/-- The valid symbols of a name, the innermost first. -/
def chain (t : SymbolTable) (name : String) : List SymbolId := t.live.getD name []

/-- The innermost valid symbol of a name. -/
def lookup? (t : SymbolTable) (name : String) : Option SymbolId := (t.chain name).head?

/-- Makes a symbol of the current scope, which gets the next number. -/
def insert (t : SymbolTable) (name : String) (kind : SymbolKind) (type : Option DataType)
    (value : Option Value) (line : Nat) : SymbolTable :=
  let id := t.symbols.size
  let t := { t with
    symbols := t.symbols.push ⟨name, kind, type, t.depth, line, value, true⟩
    live := t.live.insert name (id :: t.chain name) }
  match t.inner with
  | [] => { t with outer := id :: t.outer }
  | ids :: inner => { t with inner := (id :: ids) :: inner }

/-- Changes the symbol with number `id`. -/
def modify (t : SymbolTable) (id : SymbolId) (f : Symbol → Symbol) : SymbolTable :=
  { t with symbols := t.symbols.modify id f }

/-- The innermost valid symbol of a name, or a new untyped symbol of the current scope. -/
def resolve (t : SymbolTable) (name : String) (line : Nat) : Resolution × SymbolTable :=
  match t.lookup? name with
  | some id =>
    let inherited := (t.get? id).any fun s => s.scope < t.depth
    (⟨id, inherited, false⟩, t)
  | none => (⟨t.symbols.size, false, true⟩, t.insert name .identifier none none line)

/-- Declares a name in the current scope. -/
def declare (t : SymbolTable) (name : String) (kind : SymbolKind) (type : DataType)
    (value : Option Value) (line : Nat) : Declared × SymbolTable :=
  let (r, t) := t.resolve name line
  if r.inherited then
    (.shadowing t.symbols.size r.id,
      t.insert name kind (some type) (value.map (·.convert type)) line)
  else if (t.get? r.id).any Symbol.isTyped then (.redefinition r.id, t)
  else (.fresh r.id, t.modify r.id fun s => { s with line, kind }.declared type value)

/-- Gives a symbol a type, and answers whether it had none before. -/
def typeSymbol (t : SymbolTable) (id : SymbolId) (type : DataType) (value : Option Value) :
    Bool × SymbolTable :=
  ((t.get? id).any fun s => !s.isTyped, t.modify id (·.declared type value))

/-- Gives a symbol another value. -/
def assign (t : SymbolTable) (id : SymbolId) (value : Option Value) : SymbolTable :=
  t.modify id (·.assigned value)

/-- Opens a scope. -/
def openScope (t : SymbolTable) : SymbolTable := { t with inner := [] :: t.inner }

/-- Makes a symbol invalid. -/
def retire (t : SymbolTable) (id : SymbolId) : SymbolTable :=
  match t.get? id with
  | none => t
  | some s =>
    { t.modify id fun s => { s with valid := false } with
      live := t.live.insert s.name ((t.chain s.name).filter (· ≠ id)) }

/-- Closes the innermost scope. The global scope stays open. -/
def closeScope (t : SymbolTable) : SymbolTable :=
  match t.inner with
  | [] => t
  | ids :: inner => { ids.foldl retire t with inner }

end SymbolTable

end MiniC
