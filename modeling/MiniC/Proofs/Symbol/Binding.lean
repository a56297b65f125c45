import MiniC.Symbol.Table

/-!
# Bindings of a symbol table

`SymbolTable.Binds t name scope id` says that symbol `id` is valid, is called `name` and belongs to
the scope with number `scope`. All that a table can answer about names follows from its bindings, so
what an operation does is said once in terms of them : opening a scope and changing types and values
keeps every binding (`binds_openScope`, `binds_modify`), a new symbol adds one (`binds_insert`),
closing a scope removes those of the innermost scope.

The two indexes are compared with the bindings in `MiniC.Proofs.Symbol.WellFormed`; here they are
followed through each operation as lists.
-/

namespace MiniC

namespace SymbolTable

/-- Symbol `id` is the valid one of the name in the scope. -/
def Binds (t : SymbolTable) (name : String) (scope : Nat) (id : SymbolId) : Prop :=
  ∃ s, t.get? id = some s ∧ s.valid ∧ s.name = name ∧ s.scope = scope

/-- The symbols that the scope with number `scope` lists. -/
def idsAt (t : SymbolTable) (scope : Nat) : List SymbolId :=
  (t.outer :: t.inner.reverse).getD scope []

variable {t : SymbolTable} {name n : String} {scope d : Nat} {id j : SymbolId}

theorem Binds.name_scope_unique (h : t.Binds name scope id) (h' : t.Binds n d id) :
    n = name ∧ d = scope := by
  obtain ⟨s, hs, -, rfl, rfl⟩ := h
  obtain ⟨s', hs', -, rfl, rfl⟩ := h'
  obtain rfl := Option.some.inj (hs.symm.trans hs')
  exact ⟨rfl, rfl⟩

theorem Binds.lt_size (h : t.Binds name scope id) : id < t.symbols.size := by
  obtain ⟨s, hs, -⟩ := h
  exact (Array.getElem?_eq_some_iff.1 hs).1

theorem idsAt_eq_nil (h : t.depth < d) : t.idsAt d = [] := by
  unfold idsAt
  have hl : (t.outer :: t.inner.reverse).length ≤ d := by
    simp only [List.length_cons, List.length_reverse]
    exact h
  rw [List.getD_eq_getElem?_getD, List.getElem?_eq_none hl]
  rfl

/-- The innermost scope that is nested lists its symbols first. -/
theorem idsAt_of_inner {ids : List SymbolId} {inner : List (List SymbolId)}
    (h : t.inner = ids :: inner) (d : Nat) :
    t.idsAt d = if d = t.depth then ids else { t with inner }.idsAt d := by
  unfold idsAt depth
  rw [h]
  simp only [List.reverse_cons, List.length_cons, List.getD_eq_getElem?_getD]
  rw [← List.cons_append, List.getElem?_append]
  split
  · next hd =>
    have hne : d ≠ inner.length + 1 := by simp at hd; omega
    rw [if_neg hne]
  · next hd =>
    by_cases he : d = inner.length + 1
    · simp [he]
    · have hn : inner.length + 1 < d := by simp at hd; omega
      rw [if_neg he, List.getElem?_eq_none (by simp; omega), List.getElem?_eq_none (by simp; omega)]

/-! ## A new symbol -/

section Insert

variable (t) (name) (kind : SymbolKind) (type : Option DataType) (value : Option Value) (line : Nat)

@[simp] theorem depth_insert : (t.insert name kind type value line).depth = t.depth := by
  unfold insert depth
  dsimp only
  split <;> simp_all

theorem symbols_insert : (t.insert name kind type value line).symbols =
    t.symbols.push ⟨name, kind, type, t.depth, line, value, true⟩ := by
  unfold insert
  dsimp only
  split <;> rfl

theorem get?_insert (j : SymbolId) : (t.insert name kind type value line).get? j =
    if j = t.symbols.size then some ⟨name, kind, type, t.depth, line, value, true⟩
    else t.get? j := by
  rw [get?, symbols_insert, Array.getElem?_push]
  rfl

theorem chain_insert (n : String) : (t.insert name kind type value line).chain n =
    if name = n then t.symbols.size :: t.chain n else t.chain n := by
  have hl : (t.insert name kind type value line).live =
      t.live.insert name (t.symbols.size :: t.chain name) := by
    unfold insert
    dsimp only
    split <;> rfl
  rw [chain, hl, Std.HashMap.getD_insert]
  by_cases hn : name = n
  · subst hn
    simp
  · simp [hn, chain]

theorem idsAt_insert (d : Nat) : (t.insert name kind type value line).idsAt d =
    if d = t.depth then t.symbols.size :: t.idsAt d else t.idsAt d := by
  cases hi : t.inner with
  | nil =>
    have hd : t.depth = 0 := by rw [depth, hi]; rfl
    rw [hd]
    unfold insert
    simp only [hi, idsAt]
    cases d with
    | zero => rfl
    | succ d => simp
  | cons ids inner =>
    have hn : (t.insert name kind type value line).inner = (t.symbols.size :: ids) :: inner := by
      simp [insert, hi]
    rw [idsAt_of_inner hn, idsAt_of_inner hi, depth_insert]
    split
    · rfl
    · simp [insert, hi, idsAt]

theorem binds_insert (n : String) (d : Nat) (j : SymbolId) :
    (t.insert name kind type value line).Binds n d j ↔
      t.Binds n d j ∨ (n = name ∧ d = t.depth ∧ j = t.symbols.size) := by
  unfold Binds
  rw [get?_insert]
  split
  · next hj =>
    have hnone : t.get? j = none := by simp [get?, hj]
    simp only [hnone, Option.some.injEq, exists_eq_left']
    grind
  · next hj => simp [hj]

end Insert

/-! ## Another type or value -/

section Modify

variable (f : Symbol → Symbol)

theorem get?_modify : (t.modify id f).get? j =
    if id = j then (t.get? j).map f else t.get? j :=
  Array.getElem?_modify

/-- A change that leaves a symbol its name, its scope and its validity. -/
def Keeps (f : Symbol → Symbol) : Prop :=
  ∀ s, (f s).name = s.name ∧ (f s).scope = s.scope ∧ (f s).valid = s.valid

theorem binds_modify (hf : Keeps f) : (t.modify id f).Binds n d j ↔ t.Binds n d j := by
  unfold Binds
  rw [get?_modify]
  split
  · cases t.get? j with
    | none => simp
    | some s => simp [hf s]
  · rfl

end Modify

/-! ## Symbols that become invalid -/

/-- The symbol behind the end of its scope. -/
def retired (s : Symbol) : Symbol := { s with valid := false }

/-- Every symbol that is listed for a name is called so. -/
def Named (t : SymbolTable) : Prop :=
  ∀ n j, j ∈ t.chain n → ∃ s, t.get? j = some s ∧ s.name = n

theorem get?_retire (t : SymbolTable) (id j : SymbolId) :
    (t.retire id).get? j = if id = j then (t.get? j).map retired else t.get? j := by
  unfold retire
  cases hid : t.get? id with
  | none =>
    dsimp only
    split
    · next he => rw [← he, hid, Option.map_none]
    · rfl
  | some s => exact get?_modify _

@[simp] theorem scopes_retire (t : SymbolTable) (id : SymbolId) :
    (t.retire id).inner = t.inner ∧ (t.retire id).outer = t.outer := by
  unfold retire
  split <;> exact ⟨rfl, rfl⟩

theorem size_retire (t : SymbolTable) (id : SymbolId) :
    (t.retire id).symbols.size = t.symbols.size := by
  unfold retire
  split
  · rfl
  · exact Array.size_modify

theorem chain_retire (h : t.Named) (id : SymbolId) (n : String) :
    (t.retire id).chain n = (t.chain n).filter (· ≠ id) := by
  have hself : ∀ m, (∀ s, t.get? id = some s → s.name ≠ m) →
      (t.chain m).filter (· ≠ id) = t.chain m := by
    intro m hm
    refine List.filter_eq_self.2 fun j hj => ?_
    obtain ⟨s, hs, hn⟩ := h m j hj
    rw [decide_eq_true_eq]
    rintro rfl
    exact hm s hs hn
  unfold retire
  cases hid : t.get? id with
  | none => exact (hself n (by simp [hid])).symm
  | some s =>
    rw [chain, Std.HashMap.getD_insert]
    split
    · next hn => rw [eq_of_beq hn]
    · next hn =>
      refine (hself n ?_).symm
      simpa [hid] using hn

theorem named_retire (h : t.Named) (id : SymbolId) : (t.retire id).Named := by
  intro n j hj
  rw [chain_retire h, List.mem_filter] at hj
  obtain ⟨s, hs, hn⟩ := h n j hj.1
  rw [get?_retire, hs]
  split
  · exact ⟨_, rfl, hn⟩
  · exact ⟨s, rfl, hn⟩

theorem get?_retireAll (j : SymbolId) : ∀ (ids : List SymbolId) (t : SymbolTable),
    (ids.foldl retire t).get? j = if j ∈ ids then (t.get? j).map retired else t.get? j
  | [], t => rfl
  | id :: ids, t => by
    rw [List.foldl_cons, get?_retireAll j ids, get?_retire]
    by_cases he : id = j
    · subst he
      cases t.get? id <;> simp [retired]
    · simp [he, Ne.symm he]

@[simp] theorem scopes_retireAll : ∀ (ids : List SymbolId) (t : SymbolTable),
    (ids.foldl retire t).inner = t.inner ∧ (ids.foldl retire t).outer = t.outer
  | [], t => ⟨rfl, rfl⟩
  | id :: ids, t => by simp [scopes_retireAll ids]

theorem chain_retireAll (n : String) : ∀ (ids : List SymbolId) {t : SymbolTable}, t.Named →
    (ids.foldl retire t).chain n = (t.chain n).filter (· ∉ ids)
  | [], t, _ => by
    symm
    simp only [List.foldl_nil, List.filter_eq_self]
    simp
  | id :: ids, t, h => by
    rw [List.foldl_cons, chain_retireAll n ids (named_retire h id), chain_retire h,
      List.filter_filter]
    congr 1
    funext j
    simp [Bool.and_comm]

end SymbolTable

end MiniC
