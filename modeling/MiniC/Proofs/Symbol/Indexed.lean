import Mathlib
import MiniC.Proofs.Symbol.Operation
import MiniC.Symbol.Indexed

/-!
# Numbered scopes stand for nested ones

An indexed table `Represents` a symbol table when it has the same symbols in the same scope, and
lists them in the opposite order. Every call of an operation then gives the same answer in both, and
finds every symbol and every slot that it looks for (`IndexedTable.Represents.perform`), as long as
it names symbols that were made.

What a well-formed table lists by name and by scope, the indexed table lists too
(`IndexedTable.Coherent`). The main statement is `indexed_coherent`.
-/

namespace MiniC

namespace IndexedTable

/-- Makes one call. -/
def perform? (u : IndexedTable) : TableOp → Option (Answer × IndexedTable)
  | .openScope => some (.done, u.openScope)
  | .closeScope => u.closeScope?.map fun u => (.done, u)
  | .declare name kind type value line =>
    (u.declare? name kind type value line).map fun (r, u) => (.declared r, u)
  | .resolve name line => (u.resolve? name line).map fun (r, u) => (.resolved r, u)
  | .lookup name => some (.found (u.lookup? name), u)
  | .typeSymbol id type value =>
    (u.typeSymbol? id type value).map fun (changed, u) => (.typed changed, u)
  | .assign id value => (u.assign? id value).map fun u => (.done, u)

/-- Makes the calls one after the other. -/
def performAll? (u : IndexedTable) : List TableOp → Option (List Answer × IndexedTable)
  | [] => some ([], u)
  | op :: ops => do
    let (answer, u) ← u.perform? op
    let (answers, u) ← u.performAll? ops
    return (answer :: answers, u)

/-- The indexed table has the symbols of `t`, lists them as `t` does from the other end, and has a
slot for every scope that is open. -/
structure Represents (u : IndexedTable) (t : SymbolTable) : Prop where
  symbols : u.symbols = t.symbols
  depth : u.depth = t.depth
  chain : ∀ name, u.chain name = (t.chain name).reverse
  scopes : ∀ d, u.scopes.getD d [] = (t.idsAt d).reverse
  depth_lt : u.depth < u.scopes.size

variable {u v : IndexedTable} {t : SymbolTable} {name : String} {id : SymbolId}

/-- Slots that are set one by one. -/
theorem getD_setIfInBounds {slots : Array (List SymbolId)} {d e : Nat} (h : d < slots.size)
    (ids : List SymbolId) :
    (slots.setIfInBounds d ids).getD e [] = if e = d then ids else slots.getD e [] := by
  rw [Array.getD_eq_getD_getElem?, Array.getD_eq_getD_getElem?, Array.getElem?_setIfInBounds,
    if_pos h]
  by_cases he : e = d
  · rw [if_pos he.symm, if_pos he, Option.getD_some]
  · rw [if_neg (Ne.symm he), if_neg he]

theorem getElem?_eq_some_getD {slots : Array (List SymbolId)} {d : Nat} (h : d < slots.size) :
    slots[d]? = some (slots.getD d []) := by
  rw [Array.getD_eq_getD_getElem?, Array.getElem?_eq_getElem h, Option.getD_some]

/-- Symbols that are taken out of the list of one name. -/
theorem getD_modify_filter (live : Std.HashMap String (List SymbolId)) (name n : String)
    (p : SymbolId → Bool) : (live.modify name (·.filter p)).getD n [] =
      if name == n then (live.getD n []).filter p else live.getD n [] := by
  rw [Std.HashMap.getD_modify]
  split
  · next hn =>
    rw [← eq_of_beq hn, Std.HashMap.getD_eq_getD_getElem?]
    exact Option.getD_map (·.filter p) [] _
  · rfl

namespace Represents

theorem empty : Represents .empty .empty where
  symbols := rfl
  depth := rfl
  chain name := by
    rw [IndexedTable.chain, SymbolTable.chain, IndexedTable.empty, SymbolTable.empty]
    simp only [Std.HashMap.getD_empty, List.reverse_nil]
  scopes d := by
    cases d <;> simp [IndexedTable.empty, SymbolTable.empty, SymbolTable.idsAt]
  depth_lt := Nat.zero_lt_one

theorem lookup?_eq (h : Represents u t) (name : String) : u.lookup? name = t.lookup? name := by
  rw [IndexedTable.lookup?, h.chain, List.getLast?_reverse]
  rfl

/-- A symbol of the current scope finds its slot. -/
theorem insert (h : Represents u t) (name : String) (kind : SymbolKind) (type : Option DataType)
    (value : Option Value) (line : Nat) :
    ∃ v, u.insert? ⟨name, kind, type, u.depth, line, value, true⟩ = some (t.symbols.size, v) ∧
      Represents v (t.insert name kind type value line) := by
  have hslot := getElem?_eq_some_getD h.depth_lt
  refine ⟨{ u with
      symbols := u.symbols.push ⟨name, kind, type, u.depth, line, value, true⟩
      live := u.live.insert name (u.chain name ++ [u.symbols.size])
      scopes := u.scopes.setIfInBounds u.depth (u.scopes.getD u.depth [] ++ [u.symbols.size]) },
    ?_, ?_, ?_, fun n => ?_, fun d => ?_, ?_⟩
  · simp only [insert?, hslot, h.symbols]
    rfl
  · rw [SymbolTable.symbols_insert, ← h.symbols, h.depth]
  · rw [SymbolTable.depth_insert]
    exact h.depth
  · rw [SymbolTable.chain_insert, IndexedTable.chain, Std.HashMap.getD_insert, h.symbols, h.chain]
    by_cases hn : name = n
    · subst hn
      simp
    · have hc := h.chain n
      rw [IndexedTable.chain] at hc
      simp [hn, hc]
  · rw [getD_setIfInBounds h.depth_lt, SymbolTable.idsAt_insert, h.scopes, h.scopes, h.depth,
      h.symbols]
    by_cases hd : d = t.depth
    · simp [hd]
    · simp [hd]
  · simpa using h.depth_lt

/-- A symbol that was made is found and changed. -/
theorem modify (h : Represents u t) (hid : id < t.symbols.size) (f : Symbol → Symbol) :
    ∃ v, u.modify? id f = some v ∧ Represents v (t.modify id f) := by
  have hs : u.symbols[id]? = some t.symbols[id] := by
    rw [h.symbols, Array.getElem?_eq_getElem hid]
  refine ⟨{ u with symbols := u.symbols.modify id f }, ?_, ?_, h.depth, h.chain, h.scopes,
    h.depth_lt⟩
  · simp only [modify?, hs]
    rfl
  · rw [h.symbols]
    rfl

/-- A name that is found is the number of a symbol, which the indexed table looks at. -/
theorem resolve (h : Represents u t) (hw : t.WellFormed) (name : String) (line : Nat) :
    ∃ v, u.resolve? name line = some ((t.resolve name line).1, v) ∧
      Represents v (t.resolve name line).2 := by
  cases hl : t.lookup? name with
  | none =>
    obtain ⟨v, hv, hr⟩ := h.insert name .identifier none none line
    refine ⟨v, ?_, ?_⟩
    · rw [resolve?, h.lookup?_eq, hl, SymbolTable.resolve_of_not_lookup? line hl]
      simp only [hv]
      rfl
    · rwa [SymbolTable.resolve_of_not_lookup? line hl]
  | some id =>
    obtain ⟨d, ⟨s, hs, -⟩, -⟩ := (SymbolTable.lookup?_eq_some_iff hw).1 hl
    have hu : u.symbols[id]? = some s := by rw [h.symbols]; exact hs
    refine ⟨u, ?_, ?_⟩
    · rw [resolve?, h.lookup?_eq, hl, SymbolTable.resolve_of_lookup? line hl]
      simp only [hu, hs, h.depth, Option.any_some]
      rfl
    · rwa [SymbolTable.resolve_of_lookup? line hl]

/-- The symbol that a declaration looks at was made, by the use of the name at the latest. -/
theorem declare (h : Represents u t) (hw : t.WellFormed) (name : String) (kind : SymbolKind)
    (type : DataType) (value : Option Value) (line : Nat) :
    ∃ v, u.declare? name kind type value line = some ((t.declare name kind type value line).1, v) ∧
      Represents v (t.declare name kind type value line).2 := by
  obtain ⟨u', hu', hr⟩ := h.resolve hw name line
  have hid := SymbolTable.resolve_id_lt line hw name
  rw [SymbolTable.declare]
  generalize t.resolve name line = r at hu' hr hid ⊢
  obtain ⟨⟨id, inherited, created⟩, t'⟩ := r
  have hs : u'.symbols[id]? = some t'.symbols[id] := by
    rw [hr.symbols, Array.getElem?_eq_getElem hid]
  have ht : t'.get? id = some t'.symbols[id] := Array.getElem?_eq_getElem hid
  simp only [declare?, hu', Option.bind_eq_bind, Option.bind_some]
  cases inherited with
  | true =>
    obtain ⟨v, hv, hr'⟩ := hr.insert name kind (some type) (value.map (·.convert type)) line
    exact ⟨v, by simp only [hv]; rfl, hr'⟩
  | false =>
    by_cases htyped : t'.symbols[id].isTyped
    · refine ⟨u', ?_, ?_⟩ <;> simp [hs, ht, htyped, hr]
    · obtain ⟨v, hv, hr'⟩ := hr.modify hid fun s => { s with line, kind }.declared type value
      refine ⟨v, ?_, ?_⟩ <;> simp [hs, ht, htyped, hv, hr']

theorem typeSymbol (h : Represents u t) (hid : id < t.symbols.size) (type : DataType)
    (value : Option Value) :
    ∃ v, u.typeSymbol? id type value = some ((t.typeSymbol id type value).1, v) ∧
      Represents v (t.typeSymbol id type value).2 := by
  obtain ⟨v, hv, hr⟩ := h.modify hid (·.declared type value)
  have hs : u.symbols[id]? = some t.symbols[id] := by
    rw [h.symbols, Array.getElem?_eq_getElem hid]
  have ht : t.get? id = some t.symbols[id] := Array.getElem?_eq_getElem hid
  refine ⟨v, ?_, hr⟩
  simp only [typeSymbol?, SymbolTable.typeSymbol, hs, ht, hv, Option.bind_eq_bind,
    Option.bind_some, Option.any_some]
  rfl

/-- The slot of a new scope is empty, whether it was there before or not. -/
theorem openScope (h : Represents u t) : Represents u.openScope t.openScope where
  symbols := h.symbols
  depth := congrArg (· + 1) h.depth
  chain := h.chain
  scopes d := by
    have hids : t.openScope.idsAt d = t.idsAt d := by
      rw [SymbolTable.idsAt_of_inner (t := t.openScope) rfl]
      split
      · next hd =>
        refine (SymbolTable.idsAt_eq_nil ?_).symm
        rw [hd]
        exact Nat.lt_succ_self _
      · rfl
    rw [hids, ← h.scopes, IndexedTable.openScope]
    dsimp only
    split
    · rw [Array.getD_eq_getD_getElem?, Array.getD_eq_getD_getElem?, Array.getElem?_push]
      split
      · next hd => rw [hd, Array.getElem?_eq_none (Nat.le_refl _)]; rfl
      · rfl
    · rfl
  depth_lt := by
    have hlt := h.depth_lt
    dsimp only [IndexedTable.openScope]
    split
    · rw [Array.size_push]
      omega
    · omega

end Represents

/-! ## The end of a scope -/

/-- What the two tables have in common while the symbols of a scope become invalid one by one. -/
structure Lists (u : IndexedTable) (t : SymbolTable) : Prop where
  symbols : u.symbols = t.symbols
  chain : ∀ name, u.chain name = (t.chain name).reverse

theorem Lists.retire (h : Lists u t) (hid : id < t.symbols.size) :
    ∃ live, u.retire? id = some { u with symbols := (t.retire id).symbols, live } ∧
      Lists { u with symbols := (t.retire id).symbols, live } (t.retire id) := by
  have hs : u.symbols[id]? = some t.symbols[id] := by
    rw [h.symbols, Array.getElem?_eq_getElem hid]
  have ht : t.get? id = some t.symbols[id] := Array.getElem?_eq_getElem hid
  have hsymbols : (t.retire id).symbols =
      u.symbols.modify id fun s => { s with valid := false } := by
    rw [SymbolTable.retire, ht, h.symbols]
    rfl
  refine ⟨u.live.modify t.symbols[id].name (·.filter (· ≠ id)), ?_, rfl, fun n => ?_⟩
  · simp only [retire?, modify?, hs, hsymbols]
    rfl
  · have hn := h.chain n
    rw [IndexedTable.chain] at hn
    simp only [IndexedTable.chain, SymbolTable.chain, SymbolTable.retire, ht, getD_modify_filter,
      Std.HashMap.getD_insert]
    by_cases hname : t.symbols[id].name = n
    · subst hname
      rw [if_pos BEq.rfl, if_pos BEq.rfl, hn, List.filter_reverse]
      rfl
    · have hne : ¬(t.symbols[id].name == n) = true := by simpa using hname
      rw [if_neg hne, if_neg hne, hn]
      rfl

/-- The calls find every symbol that they make invalid. -/
theorem Lists.retireAll : ∀ {u : IndexedTable} {t : SymbolTable} (ids : List SymbolId),
    Lists u t → (∀ id ∈ ids, id < t.symbols.size) →
    ∃ symbols live, ids.foldlM retire? u = some { u with symbols, live } ∧
      Lists { u with symbols, live } (ids.foldl SymbolTable.retire t)
  | u, _, [], h, _ => ⟨u.symbols, u.live, rfl, h⟩
  | u, t, id :: ids, h, hids => by
    obtain ⟨live, hu, hr⟩ := h.retire (hids id List.mem_cons_self)
    have hsize : ∀ j ∈ ids, j < (t.retire id).symbols.size := by
      intro j hj
      rw [SymbolTable.size_retire]
      exact hids j (List.mem_cons_of_mem _ hj)
    obtain ⟨symbols, live', hus, hrs⟩ := hr.retireAll ids hsize
    refine ⟨symbols, live', ?_, hrs⟩
    rw [List.foldlM_cons, hu]
    exact hus

/-- Symbols become invalid in either order. -/
theorem retireAll_reverse (h : t.Named) (ids : List SymbolId) :
    (ids.reverse.foldl SymbolTable.retire t).symbols = (ids.foldl SymbolTable.retire t).symbols ∧
      ∀ n, (ids.reverse.foldl SymbolTable.retire t).chain n =
        (ids.foldl SymbolTable.retire t).chain n := by
  refine ⟨Array.ext_getElem? fun j => ?_, fun n => ?_⟩
  · have hj := SymbolTable.get?_retireAll j
    simp only [SymbolTable.get?] at hj
    simp only [hj, List.mem_reverse]
  · simp only [SymbolTable.chain_retireAll n _ h, List.mem_reverse]

theorem Represents.closeScope (h : Represents u t) (hw : t.WellFormed) :
    ∃ v, u.closeScope? = some v ∧ Represents v t.closeScope := by
  by_cases hd : t.depth = 0
  · refine ⟨u, ?_, ?_⟩
    · rw [closeScope?, if_pos (h.depth.trans hd)]
    · rwa [SymbolTable.closeScope_of_depth_eq_zero hd]
  have hpos : 0 < t.depth := Nat.pos_of_ne_zero hd
  have hslot := getElem?_eq_some_getD h.depth_lt
  obtain ⟨inner, hi, hc⟩ := SymbolTable.closeScope_eq hpos
  have hlists : Lists { u with scopes := u.scopes.setIfInBounds u.depth [] } t :=
    ⟨h.symbols, h.chain⟩
  have hids : ∀ id ∈ (t.idsAt t.depth).reverse, id < t.symbols.size := by
    intro id hid
    obtain ⟨name, hb⟩ := (hw.mem_idsAt t.depth id).1 (List.mem_reverse.1 hid)
    exact hb.lt_size
  obtain ⟨symbols, live, hu, hsymbols, hchain⟩ := hlists.retireAll _ hids
  obtain ⟨hs, hn⟩ := retireAll_reverse hw.named (t.idsAt t.depth)
  refine ⟨⟨symbols, live, u.scopes.setIfInBounds u.depth [], u.depth - 1⟩, ?_, ?_, ?_, ?_, ?_, ?_⟩
  · rw [closeScope?, if_neg (h.depth ▸ hd), hslot, h.scopes, h.depth]
    rw [h.depth] at hu
    simp only [Option.bind_eq_bind, Option.bind_some, hu]
    rfl
  · rw [hc]
    exact hsymbols.trans hs
  · rw [SymbolTable.depth_closeScope hpos, h.depth]
  · intro n
    refine (hchain n).trans ?_
    rw [hn, hc]
    rfl
  · intro d
    dsimp only
    rw [getD_setIfInBounds h.depth_lt, SymbolTable.idsAt_closeScope hpos, h.scopes, h.depth]
    split
    · rfl
    · rfl
  · have hlt := h.depth_lt
    rw [Array.size_setIfInBounds]
    exact Nat.lt_of_le_of_lt (Nat.sub_le u.depth 1) hlt

theorem Represents.perform (h : Represents u t) (hw : t.WellFormed) {op : TableOp}
    (hop : ∀ id, op.target? = some id → id < t.symbols.size) :
    ∃ v, u.perform? op = some ((t.perform op).1, v) ∧ Represents v (t.perform op).2 := by
  cases op with
  | openScope => exact ⟨_, rfl, h.openScope⟩
  | closeScope =>
    obtain ⟨v, hv, hr⟩ := h.closeScope hw
    exact ⟨v, by rw [perform?, hv]; rfl, hr⟩
  | declare name kind type value line =>
    obtain ⟨v, hv, hr⟩ := h.declare hw name kind type value line
    exact ⟨v, by rw [perform?, hv]; rfl, hr⟩
  | resolve name line =>
    obtain ⟨v, hv, hr⟩ := h.resolve hw name line
    exact ⟨v, by rw [perform?, hv]; rfl, hr⟩
  | lookup name => exact ⟨u, by rw [perform?, h.lookup?_eq]; rfl, h⟩
  | typeSymbol id type value =>
    obtain ⟨v, hv, hr⟩ := h.typeSymbol (hop id rfl) type value
    exact ⟨v, by rw [perform?, hv]; rfl, hr⟩
  | assign id value =>
    obtain ⟨v, hv, hr⟩ := h.modify (hop id rfl) (·.assigned value)
    exact ⟨v, by rw [perform?, assign?, hv]; rfl, hr⟩

/-- No call of the list looks for a symbol or a slot that is not there. -/
theorem Represents.performAll : ∀ {u : IndexedTable} {t : SymbolTable} (ops : List TableOp),
    Represents u t → t.WellFormed → t.Admits ops →
    ∃ v, u.performAll? ops = some ((t.performAll ops).1, v) ∧ Represents v (t.performAll ops).2
  | u, _, [], h, _, _ => ⟨u, rfl, h⟩
  | u, t, op :: ops, h, hw, ⟨hop, hops⟩ => by
    obtain ⟨u', hu, hr⟩ := h.perform hw hop
    obtain ⟨v, hv, hr'⟩ := hr.performAll ops (hw.perform op) hops
    refine ⟨v, ?_, hr'⟩
    simp only [performAll?, hu, hv, Option.bind_eq_bind, Option.bind_some]
    rfl

/-! ## The two indexes -/

/-- Both indexes list the valid symbols and no others, and the current scope has a slot. -/
structure Coherent (u : IndexedTable) : Prop where
  mem_chain : ∀ name id, id ∈ u.chain name ↔
    ∃ s : Symbol, u.symbols[id]? = some s ∧ s.valid ∧ s.name = name
  /-- The symbols of a name stand in the order of their scopes, the innermost last. -/
  increasing : ∀ name, (u.chain name).Pairwise fun i j =>
    ∀ s s' : Symbol, u.symbols[i]? = some s → u.symbols[j]? = some s' → s.scope < s'.scope
  unique : ∀ (i j : SymbolId) (s s' : Symbol), u.symbols[i]? = some s → u.symbols[j]? = some s' →
    s.valid → s'.valid → s.name = s'.name → s.scope = s'.scope → i = j
  mem_slot : ∀ d id, id ∈ u.scopes.getD d [] ↔
    ∃ s : Symbol, u.symbols[id]? = some s ∧ s.valid ∧ s.scope = d
  nodup : ∀ d, (u.scopes.getD d []).Nodup
  scope_le : ∀ (id : SymbolId) (s : Symbol), u.symbols[id]? = some s → s.valid → s.scope ≤ u.depth
  depth_lt : u.depth < u.scopes.size

/-- What a well-formed table lists, a table that represents it lists too. -/
theorem Represents.coherent (h : Represents u t) (hw : t.WellFormed) : Coherent u := by
  have hget : ∀ id, u.symbols[id]? = t.get? id := fun id => by rw [h.symbols]; rfl
  refine ⟨fun name id => ?_, fun name => ?_, fun i j s s' hi hj hv hv' hn hd => ?_, fun d id => ?_,
    fun d => ?_, fun id s hs hv => ?_, h.depth_lt⟩
  · rw [h.chain, List.mem_reverse, hw.mem_chain, hget]
    constructor
    · rintro ⟨scope, s, hs, hv, hn, -⟩
      exact ⟨s, hs, hv, hn⟩
    · rintro ⟨s, hs, hv, hn⟩
      exact ⟨s.scope, s, hs, hv, hn, rfl⟩
  · rw [h.chain, List.pairwise_reverse]
    refine (hw.sorted name).imp fun {j i} hlt s s' hs hs' => ?_
    rw [hget] at hs hs'
    simpa [SymbolTable.scopeOf, hs, hs'] using hlt
  · rw [hget] at hi hj
    exact hw.binds_unique ⟨s, hi, hv, hn, hd⟩ ⟨s', hj, hv', rfl, rfl⟩
  · rw [h.scopes, List.mem_reverse, hw.mem_idsAt, hget]
    constructor
    · rintro ⟨name, s, hs, hv, -, hd⟩
      exact ⟨s, hs, hv, hd⟩
    · rintro ⟨s, hs, hv, hd⟩
      exact ⟨s.name, s, hs, hv, rfl, hd⟩
  · rw [h.scopes]
    exact List.nodup_reverse.2 (hw.nodup d)
  · rw [hget] at hs
    rw [h.depth]
    exact hw.scope_le ⟨s, hs, hv, rfl, rfl⟩

/-- Any calls that name symbols by the numbers of symbols that were made can be made of the table
with numbered scopes, which answers as the table with nested ones does. Behind them, the symbols
listed for a name are the valid ones of the name, from the outermost scope inward, the symbols
listed for a scope are the valid ones of the scope, and the current scope has a slot. -/
theorem indexed_coherent (ops : List TableOp) (h : SymbolTable.empty.Admits ops) :
    ∃ u, IndexedTable.empty.performAll? ops = some ((SymbolTable.empty.performAll ops).1, u) ∧
      Represents u (SymbolTable.empty.performAll ops).2 ∧ Coherent u := by
  have hw := SymbolTable.wellFormed_empty
  obtain ⟨u, hu, hr⟩ := Represents.empty.performAll ops hw h
  exact ⟨u, hu, hr, hr.coherent (hw.performAll ops)⟩

/-- The calls of a program with two blocks that hide `x` one after the other. The first block uses
`y` before it declares it. -/
def twoBlocks : List TableOp :=
  [.declare "x" .identifier .int none 1, .openScope, .declare "x" .identifier .char none 2,
    .resolve "y" 3, .typeSymbol 2 .int none, .closeScope, .openScope,
    .declare "x" .identifier .float none 4, .assign 0 (some (.int 5))]

theorem admits_twoBlocks : SymbolTable.empty.Admits twoBlocks := by
  simp only [twoBlocks, SymbolTable.Admits, TableOp.target?, reduceCtorEq, false_imp_iff,
    implies_true, true_and, Option.some.injEq, forall_eq', and_true]
  exact ⟨by cbv, by cbv⟩

/-- In the second block `x` has its global symbol and the one made there. -/
theorem twoBlocks_coherent : SymbolTable.empty.Admits twoBlocks ∧
    ∃ answers u, IndexedTable.empty.performAll? twoBlocks = some (answers, u) ∧ Coherent u ∧
      u.chain "x" = [0, 3] ∧ u.chain "y" = [] ∧ u.scopes.getD 1 [] = [3] := by
  refine ⟨admits_twoBlocks, ?_⟩
  obtain ⟨u, hu, hr, hc⟩ := indexed_coherent twoBlocks admits_twoBlocks
  have hx : (SymbolTable.empty.performAll twoBlocks).2.chain "x" = [3, 0] := by cbv
  have hy : (SymbolTable.empty.performAll twoBlocks).2.chain "y" = [] := by cbv
  have hslot : (SymbolTable.empty.performAll twoBlocks).2.idsAt 1 = [3] := by cbv
  exact ⟨_, u, hu, hc, by rw [hr.chain, hx]; rfl, by rw [hr.chain, hy]; rfl,
    by rw [hr.scopes, hslot]; rfl⟩

end IndexedTable

end MiniC
