import MiniC.Proofs.Symbol.WellFormed

/-!
# Sequences of operations

A `TableOp` is one call of an operation of a symbol table, with its arguments, and an `Answer` what
the call returns. `SymbolTable.performAll` makes the calls of a list one after the other.

Every table reached from the empty one is well-formed (`SymbolTable.WellFormed.performAll`).
-/

namespace MiniC

/-- One call of an operation of a symbol table. -/
inductive TableOp where
  | openScope
  | closeScope
  | declare (name : String) (kind : SymbolKind) (type : DataType) (value : Option Value)
      (line : Nat)
  | resolve (name : String) (line : Nat)
  | lookup (name : String)
  | typeSymbol (id : SymbolId) (type : DataType) (value : Option Value)
  | assign (id : SymbolId) (value : Option Value)

/-- The symbol that the call changes by its number. -/
def TableOp.target? : TableOp → Option SymbolId
  | typeSymbol id _ _ | assign id _ => some id
  | openScope | closeScope | declare _ _ _ _ _ | resolve _ _ | lookup _ => none

/-- What a call returns. -/
inductive Answer where
  | done
  | declared (answer : Declared)
  | resolved (answer : Resolution)
  | found (id : Option SymbolId)
  /-- Whether the symbol had no type before. -/
  | typed (changed : Bool)

namespace SymbolTable

/-- Makes one call. -/
def perform (t : SymbolTable) : TableOp → Answer × SymbolTable
  | .openScope => (.done, t.openScope)
  | .closeScope => (.done, t.closeScope)
  | .declare name kind type value line =>
    let r := t.declare name kind type value line
    (.declared r.1, r.2)
  | .resolve name line =>
    let r := t.resolve name line
    (.resolved r.1, r.2)
  | .lookup name => (.found (t.lookup? name), t)
  | .typeSymbol id type value =>
    let r := t.typeSymbol id type value
    (.typed r.1, r.2)
  | .assign id value => (.done, t.assign id value)

/-- Makes the calls one after the other. -/
def performAll (t : SymbolTable) : List TableOp → List Answer × SymbolTable
  | [] => ([], t)
  | op :: ops =>
    let r := t.perform op
    let rs := r.2.performAll ops
    (r.1 :: rs.1, rs.2)

/-- Every call that names a symbol by its number names one that was made. -/
def Admits (t : SymbolTable) : List TableOp → Prop
  | [] => True
  | op :: ops => (∀ id, op.target? = some id → id < t.symbols.size) ∧ (t.perform op).2.Admits ops

theorem WellFormed.perform {t : SymbolTable} (h : t.WellFormed) (op : TableOp) :
    (t.perform op).2.WellFormed := by
  cases op with
  | openScope => exact h.openScope
  | closeScope => exact h.closeScope
  | declare name kind type value line => exact h.declare kind type value line name
  | resolve name line => exact h.resolve line name
  | lookup name => exact h
  | typeSymbol id type value => exact h.modify (keeps_declared type value) id
  | assign id value => exact h.modify (keeps_assigned value) id

theorem WellFormed.performAll : ∀ {t : SymbolTable} (ops : List TableOp), t.WellFormed →
    (t.performAll ops).2.WellFormed
  | _, [], h => h
  | _, op :: ops, h => WellFormed.performAll ops (h.perform op)

end SymbolTable

end MiniC
