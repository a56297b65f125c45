import Mathlib.Logic.Function.Basic
import MiniC.Proofs.Symbol.Binding
import MiniC.Report

/-!
# A symbol table under other names

Let every name be replaced by its image under an injective `f`. `SymbolTable.Renamed f t u` says
that two tables are then the same : what `t` says of a name, `u` says of its image. Names outside
the image are left open, as nothing is asked of them.

Each operation of the table answers both with the same numbers and keeps them the same. A report
names the symbols, and leaves out `main` alone, so `f` has to leave that one as it is
(`SymbolTable.Renamed.report`).
-/

namespace MiniC

/-- The symbol under its new name. -/
def Symbol.rename (f : String → String) (s : Symbol) : Symbol := { s with name := f s.name }

/-- The row of the symbol under its new name. -/
def Report.Row.rename (f : String → String) (r : Report.Row) : Report.Row :=
  { r with name := f r.name }

/-- The rows in the same order, with the new names. -/
def Report.rename (f : String → String) (r : Report) : Report := ⟨r.rows.map (Row.rename f)⟩

theorem Symbol.rename_declared (f : String → String) (s : Symbol) (type : DataType)
    (value : Option Value) :
    (s.rename f).declared type value = (s.declared type value).rename f := by
  unfold declared
  have ht : (s.rename f).isTyped = s.isTyped := rfl
  rw [ht]
  split <;> rfl

theorem Symbol.rename_assigned (f : String → String) (s : Symbol) (value : Option Value) :
    (s.rename f).assigned value = (s.assigned value).rename f := by
  obtain ⟨name, kind, type, scope, line, old, valid⟩ := s
  cases type <;> rfl

namespace SymbolTable

/-- What `t` says of a name, `u` says of its image. -/
structure Renamed (f : String → String) (t u : SymbolTable) : Prop where
  symbols : u.symbols = t.symbols.map (Symbol.rename f)
  chain : ∀ name, u.chain (f name) = t.chain name
  inner : u.inner = t.inner
  outer : u.outer = t.outer

namespace Renamed

variable {f : String → String} {t u : SymbolTable} {name : String} {id : SymbolId}

theorem empty (f : String → String) : SymbolTable.empty.Renamed f SymbolTable.empty where
  symbols := by simp [SymbolTable.empty]
  chain name := by simp [SymbolTable.chain, SymbolTable.empty]
  inner := rfl
  outer := rfl

/-! ## What is read -/

section Reading

variable (h : t.Renamed f u)

include h

theorem size : u.symbols.size = t.symbols.size := by
  rw [h.symbols, Array.size_map]

theorem depth : u.depth = t.depth := by
  rw [SymbolTable.depth, h.inner]
  rfl

theorem get? (id : SymbolId) : u.get? id = (t.get? id).map (Symbol.rename f) := by
  rw [SymbolTable.get?, h.symbols, Array.getElem?_map]
  rfl

theorem lookup? (name : String) : u.lookup? (f name) = t.lookup? name := by
  rw [SymbolTable.lookup?, h.chain]
  rfl

/-- A question that is not about the name has the same answer. -/
theorem any_get? {p : Symbol → Bool} (hp : ∀ s : Symbol, p (s.rename f) = p s) (id : SymbolId) :
    (u.get? id).any p = (t.get? id).any p := by
  rw [h.get?, Option.any_map]
  congr 1
  exact funext hp

theorem bind_get? {α : Type} {p : Symbol → Option α} (hp : ∀ s : Symbol, p (s.rename f) = p s)
    (id : SymbolId) : (u.get? id).bind p = (t.get? id).bind p := by
  rw [h.get?, Option.bind_map]
  congr 1
  exact funext hp

end Reading

/-! ## What is changed -/

theorem insert (hf : Function.Injective f) (h : t.Renamed f u) (name : String) (kind : SymbolKind)
    (type : Option DataType) (value : Option Value) (line : Nat) :
    (t.insert name kind type value line).Renamed f (u.insert (f name) kind type value line) where
  symbols := by
    rw [symbols_insert, symbols_insert, Array.map_push, h.symbols, h.depth]
    rfl
  chain n := by
    simp only [chain_insert, hf.eq_iff, h.chain, h.size]
  inner := by
    unfold SymbolTable.insert
    simp only [h.inner, h.size]
    split <;> rfl
  outer := by
    unfold SymbolTable.insert
    simp only [h.inner, h.outer, h.size]
    split <;> rfl

theorem modify {g g' : Symbol → Symbol} (hg : ∀ s : Symbol, g' (s.rename f) = (g s).rename f)
    (h : t.Renamed f u) (id : SymbolId) : (t.modify id g).Renamed f (u.modify id g') where
  symbols := by
    simp only [SymbolTable.modify, h.symbols]
    refine Array.ext (by simp) fun i hi hi' => ?_
    simp only [Array.getElem_modify, Array.getElem_map]
    split
    · exact hg _
    · rfl
  chain := h.chain
  inner := h.inner
  outer := h.outer

/-- The answer to a use of a name is the same, and so are the tables behind it. -/
theorem resolve (hf : Function.Injective f) (h : t.Renamed f u) (name : String) (line : Nat) :
    (u.resolve (f name) line).1 = (t.resolve name line).1 ∧
      (t.resolve name line).2.Renamed f (u.resolve (f name) line).2 := by
  unfold SymbolTable.resolve
  rw [h.lookup?]
  cases t.lookup? name with
  | some id =>
    have hi := h.any_get? (p := fun s => s.scope < t.depth) (fun _ => rfl) id
    exact ⟨by simp only [h.depth, hi], h⟩
  | none => exact ⟨by rw [h.size], h.insert hf ..⟩

/-- The answer to a declaration is the same, and so are the tables behind it. -/
theorem declare (hf : Function.Injective f) (h : t.Renamed f u) (name : String)
    (kind : SymbolKind) (type : DataType) (value : Option Value) (line : Nat) :
    (u.declare (f name) kind type value line).1 = (t.declare name kind type value line).1 ∧
      (t.declare name kind type value line).2.Renamed f
        (u.declare (f name) kind type value line).2 := by
  obtain ⟨hr, h⟩ := h.resolve hf name line
  unfold SymbolTable.declare
  generalize u.resolve (f name) line = r' at hr h ⊢
  generalize t.resolve name line = r at hr h ⊢
  obtain ⟨r, t⟩ := r
  obtain ⟨r', u⟩ := r'
  dsimp only at hr h ⊢
  subst hr
  rw [h.any_get? (fun _ => rfl), h.size]
  (repeat' split)
  · exact ⟨rfl, h.insert hf ..⟩
  · exact ⟨rfl, h⟩
  · exact ⟨rfl, h.modify (fun s => Symbol.rename_declared f { s with line, kind } type value) _⟩

theorem assign (h : t.Renamed f u) (id : SymbolId) (value : Option Value) :
    (t.assign id value).Renamed f (u.assign id value) :=
  h.modify (fun s => Symbol.rename_assigned f s value) id

theorem openScope (h : t.Renamed f u) : t.openScope.Renamed f u.openScope where
  symbols := h.symbols
  chain := h.chain
  inner := congrArg (List.cons []) h.inner
  outer := h.outer

theorem retire (hf : Function.Injective f) (h : t.Renamed f u) (id : SymbolId) :
    (t.retire id).Renamed f (u.retire id) := by
  unfold SymbolTable.retire
  rw [h.get?]
  cases t.get? id with
  | none => exact h
  | some s =>
    have hr (s : Symbol) : retired (s.rename f) = (retired s).rename f := rfl
    have hm : (t.modify id retired).Renamed f (u.modify id retired) := h.modify hr id
    refine ⟨hm.symbols, fun n => ?_, hm.inner, hm.outer⟩
    have hs : (s.rename f).name = f s.name := rfl
    have hn : (f s.name == f n) = (s.name == n) := by
      rw [Bool.eq_iff_iff, beq_iff_eq, beq_iff_eq, hf.eq_iff]
    have hl := h.chain n
    simp only [Option.map_some, hs, h.chain]
    unfold SymbolTable.chain at hl ⊢
    simp only [Std.HashMap.getD_insert, hn, hl]

theorem closeScope (hf : Function.Injective f) (h : t.Renamed f u) :
    t.closeScope.Renamed f u.closeScope := by
  have hall (ids : List SymbolId) {t u : SymbolTable} (h : t.Renamed f u) :
      (ids.foldl SymbolTable.retire t).Renamed f (ids.foldl SymbolTable.retire u) := by
    induction ids generalizing t u with
    | nil => exact h
    | cons id ids ih => exact ih (h.retire hf id)
  unfold SymbolTable.closeScope
  rw [h.inner]
  cases t.inner with
  | nil => exact h
  | cons ids inner =>
    obtain ⟨hs, hc, -, ho⟩ := hall ids h
    exact ⟨hs, hc, rfl, ho⟩

/-! ## The report -/

/-- A symbol is left out of the report under either name, or of neither. -/
theorem ofSymbol?_rename (hf : Function.Injective f) (hmain : f "main" = "main") (s : Symbol) :
    Report.Row.ofSymbol? (s.rename f) = (Report.Row.ofSymbol? s).map (Report.Row.rename f) := by
  have hn : f s.name = "main" ↔ s.name = "main" :=
    ⟨fun h => hf (h.trans hmain.symm), fun h => (congrArg f h).trans hmain⟩
  unfold Report.Row.ofSymbol?
  simp only [Symbol.rename, hn]
  cases s.type with
  | none => rfl
  | some type =>
    dsimp only
    split <;> rfl

theorem report (hf : Function.Injective f) (hmain : f "main" = "main") (h : t.Renamed f u) :
    u.report = t.report.rename f := by
  simp only [SymbolTable.report, Report.rename, h.symbols, Array.toList_map, List.filterMap_map,
    List.map_filterMap, Function.comp_def, ofSymbol?_rename hf hmain]

end Renamed

end SymbolTable

end MiniC
