import Mathlib.Data.List.Pairwise
import MiniC.Proofs.Symbol.Binding

/-!
# Well-formed symbol tables

A table is `SymbolTable.WellFormed` when both of its indexes list exactly its bindings : the one by
name from the innermost scope outward, the one by scope every symbol once. The empty table is, and
every operation keeps a table so.

In a well-formed table a name has at most one symbol in a scope (`WellFormed.binds_unique`), no
scope above the current one has any (`WellFormed.scope_le`), `lookup?` answers with the binding of
the innermost scope (`lookup?_eq_some_iff`), and closing a scope removes exactly the bindings of
that scope (`binds_closeScope`).
-/

namespace MiniC

namespace SymbolTable

/-- The scope that a symbol was made in. -/
def scopeOf (t : SymbolTable) (id : SymbolId) : Nat := ((t.get? id).map Symbol.scope).getD 0

theorem Binds.scopeOf_eq {t : SymbolTable} {name : String} {scope : Nat} {id : SymbolId}
    (h : t.Binds name scope id) : t.scopeOf id = scope := by
  obtain ⟨s, hs, -, -, rfl⟩ := h
  simp [scopeOf, hs]

/-- Both indexes list exactly the bindings of the table. -/
structure WellFormed (t : SymbolTable) : Prop where
  mem_chain : ∀ name id, id ∈ t.chain name ↔ ∃ scope, t.Binds name scope id
  /-- The symbols of a name stand in the order of their scopes, the innermost first. -/
  sorted : ∀ name, (t.chain name).Pairwise fun i j => t.scopeOf j < t.scopeOf i
  mem_idsAt : ∀ scope id, id ∈ t.idsAt scope ↔ ∃ name, t.Binds name scope id
  nodup : ∀ scope, (t.idsAt scope).Nodup

variable {t : SymbolTable} {name : String} {scope d : Nat} {id j : SymbolId}

namespace WellFormed

theorem scope_le (h : t.WellFormed) (hb : t.Binds name scope id) : scope ≤ t.depth := by
  by_contra hd
  have := (h.mem_idsAt scope id).2 ⟨name, hb⟩
  simp [idsAt_eq_nil (Nat.lt_of_not_le hd)] at this

theorem named (h : t.WellFormed) : t.Named := by
  intro n j hj
  obtain ⟨_, s, hs, -, hn, -⟩ := (h.mem_chain n j).1 hj
  exact ⟨s, hs, hn⟩

/-- A name has at most one symbol in a scope. -/
theorem binds_unique (h : t.WellFormed) (hi : t.Binds name scope id) (hj : t.Binds name scope j) :
    id = j := by
  by_contra hne
  have hs : (t.chain name).Pairwise fun i j => t.scopeOf i ≠ t.scopeOf j :=
    (h.sorted name).imp fun hlt => (Nat.ne_of_lt hlt).symm
  have : Std.Symm fun i j => t.scopeOf i ≠ t.scopeOf j := ⟨fun _ _ => Ne.symm⟩
  exact hs.forall ((h.mem_chain name id).2 ⟨scope, hi⟩) ((h.mem_chain name j).2 ⟨scope, hj⟩) hne
    (by rw [hi.scopeOf_eq, hj.scopeOf_eq])

end WellFormed

/-- The innermost binding of a name is the one that is found. -/
theorem lookup?_eq_some_iff (h : t.WellFormed) : t.lookup? name = some id ↔
    ∃ d, t.Binds name d id ∧ ∀ d' j, t.Binds name d' j → d' ≤ d := by
  have hs := h.sorted name
  have hm := h.mem_chain name
  unfold lookup?
  constructor
  · intro hh
    obtain ⟨rest, hr⟩ := List.head?_eq_some_iff.1 hh
    rw [hr] at hs hm
    obtain ⟨d, hd⟩ := (hm id).1 List.mem_cons_self
    refine ⟨d, hd, fun d' j hj => ?_⟩
    rcases List.mem_cons.1 ((hm j).2 ⟨d', hj⟩) with rfl | hj'
    · exact (hj.name_scope_unique hd).2 ▸ Nat.le_refl _
    · have hlt := (List.pairwise_cons.1 hs).1 j hj'
      rw [hj.scopeOf_eq, hd.scopeOf_eq] at hlt
      exact Nat.le_of_lt hlt
  · rintro ⟨d, hd, hmax⟩
    cases hc : t.chain name with
    | nil => simp [hc] at hm; exact (hm id d hd).elim
    | cons i rest =>
      rw [hc] at hs hm
      obtain ⟨e, he⟩ := (hm i).1 List.mem_cons_self
      rcases List.mem_cons.1 ((hm id).2 ⟨d, hd⟩) with rfl | hid
      · rfl
      · have hlt := (List.pairwise_cons.1 hs).1 id hid
        rw [hd.scopeOf_eq, he.scopeOf_eq] at hlt
        exact (Nat.not_lt.2 (hmax e i he) hlt).elim

theorem lookup?_eq_none_iff (h : t.WellFormed) : t.lookup? name = none ↔
    ∀ d j, ¬t.Binds name d j := by
  have hm := h.mem_chain name
  unfold lookup?
  rw [List.head?_eq_none_iff, List.eq_nil_iff_forall_not_mem]
  simp only [hm, not_exists]
  exact forall_comm

/-! ## Every operation keeps a table well-formed -/

theorem wellFormed_empty : empty.WellFormed := by
  have hb : ∀ n d j, ¬empty.Binds n d j := by
    rintro n d j ⟨s, hs, -⟩
    simp [empty, get?] at hs
  have hc : ∀ n, empty.chain n = [] := fun n => Std.HashMap.getD_empty
  have hi : ∀ d, empty.idsAt d = [] := by
    intro d
    cases d <;> simp [empty, idsAt]
  exact ⟨by simp [hc, hb], by simp [hc], by simp [hi, hb], by simp [hi]⟩

/-- Symbols that keep their bindings in another table stand in the same order there. -/
theorem sorted_of_binds {t' : SymbolTable} {ids : List SymbolId}
    (hs : ids.Pairwise fun i j => t.scopeOf j < t.scopeOf i)
    (hb : ∀ i ∈ ids, ∃ n d, t.Binds n d i ∧ t'.Binds n d i) :
    ids.Pairwise fun i j => t'.scopeOf j < t'.scopeOf i := by
  have heq : ∀ i ∈ ids, t'.scopeOf i = t.scopeOf i := by
    intro i hi
    obtain ⟨n, d, hd, hd'⟩ := hb i hi
    rw [hd.scopeOf_eq, hd'.scopeOf_eq]
  refine hs.imp_of_mem fun {i j} hi hj hlt => ?_
  rwa [heq i hi, heq j hj]

/-- A table with the indexes and the bindings of a well-formed one. -/
theorem WellFormed.congr {t' : SymbolTable} (h : t.WellFormed)
    (hc : ∀ n, t'.chain n = t.chain n) (hi : ∀ d, t'.idsAt d = t.idsAt d)
    (hb : ∀ n d j, t'.Binds n d j ↔ t.Binds n d j) : t'.WellFormed := by
  refine ⟨?_, fun n => ?_, ?_, ?_⟩
  · simpa [hc, hb] using h.mem_chain
  · rw [hc]
    refine sorted_of_binds (h.sorted n) fun i hi => ?_
    obtain ⟨d, hd⟩ := (h.mem_chain n i).1 hi
    exact ⟨n, d, hd, (hb n d i).2 hd⟩
  · simpa [hi, hb] using h.mem_idsAt
  · simpa [hi] using h.nodup

theorem WellFormed.modify (h : t.WellFormed) {f : Symbol → Symbol} (hf : Keeps f)
    (id : SymbolId) : (t.modify id f).WellFormed :=
  h.congr (fun _ => rfl) (fun _ => rfl) fun _ _ _ => binds_modify f hf

/-- A new symbol may be made for a name that the current scope does not bind. -/
theorem WellFormed.insert (h : t.WellFormed) (hn : ∀ j, ¬t.Binds name t.depth j)
    (kind : SymbolKind) (type : Option DataType) (value : Option Value) (line : Nat) :
    (t.insert name kind type value line).WellFormed := by
  have hb := binds_insert t name kind type value line
  have hold : ∀ {n d j}, t.Binds n d j →
      (t.insert name kind type value line).scopeOf j = d := fun hj =>
    ((hb _ _ _).2 (.inl hj)).scopeOf_eq
  have hnew : (t.insert name kind type value line).scopeOf t.symbols.size = t.depth :=
    ((hb name t.depth t.symbols.size).2 (.inr ⟨rfl, rfl, rfl⟩)).scopeOf_eq
  have hsorted : ∀ n, (t.chain n).Pairwise fun i j =>
      (t.insert name kind type value line).scopeOf j <
        (t.insert name kind type value line).scopeOf i := by
    intro n
    refine sorted_of_binds (h.sorted n) fun i hi => ?_
    obtain ⟨d, hd⟩ := (h.mem_chain n i).1 hi
    exact ⟨n, d, hd, (hb n d i).2 (.inl hd)⟩
  refine ⟨fun n j => ?_, fun n => ?_, fun d j => ?_, fun d => ?_⟩
  · rw [chain_insert]
    simp only [hb, exists_or, ← h.mem_chain]
    split
    · next he => subst he; simp [or_comm]
    · next he => simp [Ne.symm he]
  · rw [chain_insert]
    split
    · next he =>
      refine List.pairwise_cons.2 ⟨fun j hj => ?_, hsorted n⟩
      -- the name is bound in scopes around the current one alone
      obtain ⟨d, hd⟩ := (h.mem_chain n j).1 hj
      rw [hold hd, hnew]
      refine Nat.lt_of_le_of_ne (h.scope_le hd) ?_
      rintro rfl
      exact hn j (he ▸ hd)
    · exact hsorted n
  · rw [idsAt_insert]
    simp only [hb, exists_or, ← h.mem_idsAt]
    split
    · next he => subst he; simp [or_comm]
    · next he => simp [he]
  · rw [idsAt_insert]
    split
    · refine List.nodup_cons.2 ⟨fun hj => ?_, h.nodup d⟩
      obtain ⟨n, hd⟩ := (h.mem_idsAt d _).1 hj
      exact Nat.lt_irrefl _ hd.lt_size
    · exact h.nodup d

theorem WellFormed.openScope (h : t.WellFormed) : t.openScope.WellFormed := by
  refine h.congr (fun _ => rfl) (fun d => ?_) fun _ _ _ => Iff.rfl
  rw [idsAt_of_inner (t := t.openScope) rfl]
  split
  · next hd => exact (idsAt_eq_nil (by rw [hd]; exact Nat.lt_succ_self _)).symm
  · rfl

/-! ## The end of a scope -/

theorem closeScope_of_depth_eq_zero (hd : t.depth = 0) : t.closeScope = t := by
  unfold closeScope
  rw [List.length_eq_zero_iff.1 hd]

section CloseScope

variable (h : t.WellFormed) (hd : 0 < t.depth)

include hd in
theorem closeScope_eq : ∃ inner, t.inner = t.idsAt t.depth :: inner ∧
    t.closeScope = { (t.idsAt t.depth).foldl retire t with inner } := by
  obtain ⟨ids, inner, hi⟩ := List.exists_cons_of_length_pos hd
  have hids : t.idsAt t.depth = ids := by rw [idsAt_of_inner hi, if_pos rfl]
  refine ⟨inner, by rw [hids, hi], ?_⟩
  rw [hids, closeScope, hi]

include hd in
theorem depth_closeScope : t.closeScope.depth = t.depth - 1 := by
  obtain ⟨inner, hi, hc⟩ := closeScope_eq hd
  rw [hc, depth, depth, hi]
  rfl

include hd in
theorem idsAt_closeScope : t.closeScope.idsAt d = if d = t.depth then [] else t.idsAt d := by
  obtain ⟨inner, hi, hc⟩ := closeScope_eq hd
  have hs : t.closeScope.idsAt d = { t with inner }.idsAt d := by rw [hc]; simp [idsAt]
  rw [hs, idsAt_of_inner hi d]
  split
  · next he =>
    refine idsAt_eq_nil ?_
    rw [he, depth, depth, hi]
    exact Nat.lt_succ_self _
  · rfl

include h hd

/-- Closing a scope makes the symbols of that scope invalid, and changes nothing else of any. -/
theorem get?_closeScope (j : SymbolId) : t.closeScope.get? j =
    (t.get? j).map fun s => if s.scope = t.depth then retired s else s := by
  obtain ⟨inner, -, hc⟩ := closeScope_eq hd
  have hg : t.closeScope.get? j = ((t.idsAt t.depth).foldl retire t).get? j := by rw [hc]; rfl
  rw [hg, get?_retireAll]
  cases hj : t.get? j with
  | none => simp
  | some s =>
    have hm : j ∈ t.idsAt t.depth ↔ s.valid ∧ s.scope = t.depth := by
      rw [h.mem_idsAt]
      simp [Binds, hj]
    by_cases hv : s.valid = true
    · simp only [hm, hv, true_and, Option.map_some]
      split <;> rfl
    · -- a symbol that is not valid stays as it is
      have hr : retired s = s := by
        cases s
        simp_all [retired]
      simp [hr]

theorem chain_closeScope (n : String) :
    t.closeScope.chain n = (t.chain n).filter (· ∉ t.idsAt t.depth) := by
  obtain ⟨inner, -, hc⟩ := closeScope_eq hd
  rw [← chain_retireAll n _ h.named, hc]
  rfl

theorem binds_closeScope (n : String) (d : Nat) (j : SymbolId) :
    t.closeScope.Binds n d j ↔ t.Binds n d j ∧ d ≠ t.depth := by
  unfold Binds
  rw [get?_closeScope h hd]
  cases t.get? j with
  | none => simp
  | some s =>
    simp only [Option.map_some, Option.some.injEq, exists_eq_left']
    split
    · next hs =>
      simp only [retired, Bool.false_eq_true, false_and, false_iff]
      rintro ⟨⟨-, -, he⟩, hne⟩
      exact hne (he ▸ hs)
    · next hs => exact ⟨fun hb => ⟨hb, hb.2.2 ▸ hs⟩, And.left⟩

theorem wellFormed_closeScope : t.closeScope.WellFormed := by
  have hb := binds_closeScope h hd
  have hin : ∀ {n d j}, t.Binds n d j → (j ∈ t.idsAt t.depth ↔ d = t.depth) := by
    intro n d j hj
    rw [h.mem_idsAt]
    exact ⟨fun ⟨n', hj'⟩ => (hj.name_scope_unique hj').2.symm, fun he => ⟨n, he ▸ hj⟩⟩
  have hmem : ∀ n j, j ∈ t.closeScope.chain n ↔ ∃ d, t.Binds n d j ∧ d ≠ t.depth := by
    intro n j
    rw [chain_closeScope h hd, List.mem_filter, decide_eq_true_eq, h.mem_chain]
    constructor
    · rintro ⟨⟨d, hj⟩, hn⟩
      exact ⟨d, hj, fun he => hn ((hin hj).2 he)⟩
    · rintro ⟨d, hj, hne⟩
      exact ⟨⟨d, hj⟩, fun hn => hne ((hin hj).1 hn)⟩
  refine ⟨fun n j => ?_, fun n => ?_, fun d j => ?_, fun d => ?_⟩
  · simp only [hmem, hb]
  · have hs : (t.closeScope.chain n).Pairwise fun i j => t.scopeOf j < t.scopeOf i := by
      rw [chain_closeScope h hd]
      exact (h.sorted n).filter _
    refine sorted_of_binds hs fun i hi => ?_
    obtain ⟨d, hd⟩ := (hmem n i).1 hi
    exact ⟨n, d, hd.1, (hb n d i).2 hd⟩
  · rw [idsAt_closeScope hd]
    simp only [hb]
    split
    · next he => simp [he]
    · next he => simp [he, h.mem_idsAt]
  · rw [idsAt_closeScope hd]
    split
    · exact List.nodup_nil
    · exact h.nodup d

end CloseScope

theorem WellFormed.closeScope (h : t.WellFormed) : t.closeScope.WellFormed := by
  rcases Nat.eq_zero_or_pos t.depth with hd | hd
  · rwa [closeScope_of_depth_eq_zero hd]
  · exact wellFormed_closeScope h hd

/-! ## Names -/

theorem keeps_declared (type : DataType) (value : Option Value) :
    Keeps (·.declared type value) := by
  intro s
  dsimp only [Symbol.declared]
  split <;> exact ⟨rfl, rfl, rfl⟩

theorem keeps_assigned (value : Option Value) : Keeps (·.assigned value) := by
  intro s
  dsimp only [Symbol.assigned]
  split <;> exact ⟨rfl, rfl, rfl⟩

/-- The change that a declaration makes to a symbol of its scope. -/
def declaring (kind : SymbolKind) (type : DataType) (value : Option Value) (line : Nat)
    (s : Symbol) : Symbol := { s with line, kind }.declared type value

theorem keeps_declaring (kind : SymbolKind) (type : DataType) (value : Option Value)
    (line : Nat) : Keeps (declaring kind type value line) :=
  fun s => keeps_declared type value { s with line, kind }

theorem isTyped_declared (type : DataType) (value : Option Value) (s : Symbol) :
    (s.declared type value).isTyped = true := by
  unfold Symbol.declared
  split
  · assumption
  · rfl

theorem isTyped_declaring (kind : SymbolKind) (type : DataType) (value : Option Value)
    (line : Nat) (s : Symbol) : (declaring kind type value line s).isTyped = true :=
  isTyped_declared type value _

theorem isTyped_assigned (value : Option Value) (s : Symbol) :
    (s.assigned value).isTyped = s.isTyped := by
  unfold Symbol.assigned
  split <;> rfl

section Names

variable (kind : SymbolKind) (type : DataType) (value : Option Value) (line : Nat)

/-- A name that is bound stands for its innermost binding. -/
theorem resolve_of_lookup? (hl : t.lookup? name = some id) :
    t.resolve name line = (⟨id, (t.get? id).any (·.scope < t.depth), false⟩, t) := by
  rw [resolve, hl]

/-- A name that is not bound gets a symbol without a type. -/
theorem resolve_of_not_lookup? (hl : t.lookup? name = none) :
    t.resolve name line =
      (⟨t.symbols.size, false, true⟩, t.insert name .identifier none none line) := by
  rw [resolve, hl]

/-- What a name stands for was made, by this use at the latest. -/
theorem resolve_id_lt (h : t.WellFormed) (name : String) :
    (t.resolve name line).1.id < (t.resolve name line).2.symbols.size := by
  cases hl : t.lookup? name with
  | some id =>
    rw [resolve_of_lookup? line hl]
    obtain ⟨d, hb, -⟩ := (lookup?_eq_some_iff h).1 hl
    exact hb.lt_size
  | none =>
    rw [resolve_of_not_lookup? line hl, symbols_insert, Array.size_push]
    exact Nat.lt_succ_self _

/-- A name that the current scope binds is declared in place, unless it has a type. -/
theorem declare_of_binds (h : t.WellFormed) (hb : t.Binds name t.depth id) :
    t.declare name kind type value line =
      if (t.get? id).any Symbol.isTyped then (.redefinition id, t)
      else (.fresh id, t.modify id (declaring kind type value line)) := by
  have hl : t.lookup? name = some id :=
    (lookup?_eq_some_iff h).2 ⟨_, hb, fun _ _ hj => h.scope_le hj⟩
  obtain ⟨s, hs, -, -, hd⟩ := hb
  simp only [declare, resolve_of_lookup? line hl, hs, hd, Option.any_some, Nat.lt_irrefl,
    decide_false, Bool.false_eq_true, if_false]
  rfl

/-- A name that only scopes around the current one bind is hidden by a new symbol. -/
theorem declare_of_hidden (h : t.WellFormed) (hn : ∀ j, ¬t.Binds name t.depth j)
    (hl : t.lookup? name = some id) :
    t.declare name kind type value line = (.shadowing t.symbols.size id,
      t.insert name kind (some type) (value.map (·.convert type)) line) := by
  obtain ⟨d, hb, -⟩ := (lookup?_eq_some_iff h).1 hl
  have hlt : d < t.depth := Nat.lt_of_le_of_ne (h.scope_le hb) fun he => hn id (he ▸ hb)
  obtain ⟨s, hs, -, -, rfl⟩ := hb
  simp [declare, resolve_of_lookup? line hl, hs, hlt]

/-- A name that is not bound gets a symbol with a type. -/
theorem declare_of_not_lookup? (hl : t.lookup? name = none) :
    t.declare name kind type value line = (.fresh t.symbols.size,
      (t.insert name .identifier none none line).modify t.symbols.size
        (declaring kind type value line)) := by
  simp [declare, resolve_of_not_lookup? line hl, get?_insert, Symbol.isTyped]
  rfl

@[simp] theorem depth_resolve (t : SymbolTable) (name : String) :
    (t.resolve name line).2.depth = t.depth := by
  unfold SymbolTable.resolve
  split
  · rfl
  · exact depth_insert ..

@[simp] theorem depth_declare (t : SymbolTable) (name : String) :
    (t.declare name kind type value line).2.depth = t.depth := by
  unfold SymbolTable.declare
  dsimp only
  split
  · rw [depth_insert, depth_resolve]
  · split <;> exact depth_resolve line t name

theorem WellFormed.resolve (h : t.WellFormed) (name : String) :
    (t.resolve name line).2.WellFormed := by
  cases hl : t.lookup? name with
  | some id => rwa [resolve_of_lookup? line hl]
  | none =>
    rw [resolve_of_not_lookup? line hl]
    exact h.insert (fun j => (lookup?_eq_none_iff h).1 hl _ j) _ _ _ _

theorem WellFormed.declare (h : t.WellFormed) (name : String) :
    (t.declare name kind type value line).2.WellFormed := by
  by_cases hb : ∃ id, t.Binds name t.depth id
  · obtain ⟨id, hb⟩ := hb
    rw [declare_of_binds kind type value line h hb]
    split
    · exact h
    · exact h.modify (keeps_declaring kind type value line) id
  · have hn := not_exists.1 hb
    cases hl : t.lookup? name with
    | some id =>
      rw [declare_of_hidden kind type value line h hn hl]
      exact h.insert hn _ _ _ _
    | none =>
      rw [declare_of_not_lookup? kind type value line hl]
      exact (h.insert hn _ _ _ _).modify (keeps_declaring kind type value line) _

end Names

end SymbolTable

end MiniC
