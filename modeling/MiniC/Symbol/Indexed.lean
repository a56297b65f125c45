import MiniC.Symbol.Table

/-!
# Symbol tables with numbered scopes

`SymbolTable` nests its open scopes in one another. An `IndexedTable` is the same table with a slot
for every scope number that was ever in use, and the number of the current scope beside them : a
scope that closes leaves an empty slot, which the next one of its number takes over. Symbols and
slots are found by their numbers, and an operation that finds none at a number has no result
(`IndexedTable.insert?`, `IndexedTable.closeScope?` and what is built on them).
-/

namespace MiniC

/-- All symbols, with the valid ones by name and by the number of their scope. -/
structure IndexedTable where
  /-- Every symbol at its number. -/
  symbols : Array Symbol
  /-- For each name its valid symbols, the innermost last. -/
  live : Std.HashMap String (List SymbolId)
  /-- For each number of a scope the valid symbols of the scope. -/
  scopes : Array (List SymbolId)
  /-- The number of the current scope. -/
  depth : Nat

namespace IndexedTable

/-- No symbols, and one slot for the global scope. -/
def empty : IndexedTable := ⟨#[], ∅, #[[]], 0⟩

instance : Inhabited IndexedTable := ⟨empty⟩

/-- The valid symbols of a name, the innermost last. -/
def chain (u : IndexedTable) (name : String) : List SymbolId := u.live.getD name []

/-- The innermost valid symbol of a name. -/
def lookup? (u : IndexedTable) (name : String) : Option SymbolId := (u.chain name).getLast?

/-- Adds a symbol to its scope, and answers with its number. -/
def insert? (u : IndexedTable) (s : Symbol) : Option (SymbolId × IndexedTable) := do
  let id := u.symbols.size
  let ids ← u.scopes[s.scope]?
  return (id, { u with
    symbols := u.symbols.push s
    live := u.live.insert s.name (u.chain s.name ++ [id])
    scopes := u.scopes.setIfInBounds s.scope (ids ++ [id]) })

/-- Changes the symbol with number `id`. -/
def modify? (u : IndexedTable) (id : SymbolId) (f : Symbol → Symbol) : Option IndexedTable := do
  let _ ← u.symbols[id]?
  return { u with symbols := u.symbols.modify id f }

/-- The innermost valid symbol of a name, or a new untyped symbol of the current scope. -/
def resolve? (u : IndexedTable) (name : String) (line : Nat) :
    Option (Resolution × IndexedTable) :=
  match u.lookup? name with
  | some id => do
    let s ← u.symbols[id]?
    return (⟨id, s.scope < u.depth, false⟩, u)
  | none => do
    let (id, u) ← u.insert? ⟨name, .identifier, none, u.depth, line, none, true⟩
    return (⟨id, false, true⟩, u)

/-- Declares a name in the current scope. -/
def declare? (u : IndexedTable) (name : String) (kind : SymbolKind) (type : DataType)
    (value : Option Value) (line : Nat) : Option (Declared × IndexedTable) := do
  let (r, u) ← u.resolve? name line
  if r.inherited then
    let (id, u) ←
      u.insert? ⟨name, kind, some type, u.depth, line, value.map (·.convert type), true⟩
    return (.shadowing id r.id, u)
  else
    let s ← u.symbols[r.id]?
    if s.isTyped then return (.redefinition r.id, u)
    else
      let u ← u.modify? r.id fun s => { s with line, kind }.declared type value
      return (.fresh r.id, u)

/-- Gives a symbol a type, and answers whether it had none before. -/
def typeSymbol? (u : IndexedTable) (id : SymbolId) (type : DataType) (value : Option Value) :
    Option (Bool × IndexedTable) := do
  let s ← u.symbols[id]?
  let u ← u.modify? id (·.declared type value)
  return (!s.isTyped, u)

/-- Gives a symbol another value. -/
def assign? (u : IndexedTable) (id : SymbolId) (value : Option Value) : Option IndexedTable :=
  u.modify? id (·.assigned value)

/-- Opens a scope, which takes the slot of its number over, or a new one if there is none. -/
def openScope (u : IndexedTable) : IndexedTable :=
  { u with
    depth := u.depth + 1
    scopes := if u.scopes.size ≤ u.depth + 1 then u.scopes.push [] else u.scopes }

/-- Makes a symbol invalid. -/
def retire? (u : IndexedTable) (id : SymbolId) : Option IndexedTable := do
  let s ← u.symbols[id]?
  let u ← u.modify? id fun s => { s with valid := false }
  return { u with live := u.live.modify s.name (·.filter (· ≠ id)) }

/-- Empties the slot of the current scope, and goes back to the scope around it. The global scope
stays open. -/
def closeScope? (u : IndexedTable) : Option IndexedTable :=
  if u.depth = 0 then some u
  else do
    let ids ← u.scopes[u.depth]?
    let u ← ids.foldlM retire? { u with scopes := u.scopes.setIfInBounds u.depth [] }
    return { u with depth := u.depth - 1 }

end IndexedTable

end MiniC
