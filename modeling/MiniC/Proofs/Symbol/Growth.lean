import MiniC.Proofs.Symbol.Typed

/-!
# How a symbol table grows

A table is followed through a piece of code by what it has in common with the one before it. Behind
an expression whose names are all declared it has other values and nothing else (`SameShape`).
Behind a declaration it has one more symbol (`Gains`), or the symbol of the name in the current
scope gets its type, or stays as it is if it had one (`Declares`). Behind the items of a block it
has what the scopes around the block had (`Grows`), and at the end of the block the names stand for
what they stood for at its beginning (`Grows.closeScope`).

A property of every symbol (`Each`) is kept where one symbol is new or another one, where one is
changed and where a scope ends, if that symbol gets or keeps it there.
-/

namespace MiniC

namespace SymbolTable

variable {t u w : SymbolTable} {name n : String} {scope d : Nat} {id j : SymbolId}

/-- The table `u` is `t` with other values. -/
structure SameShape (t u : SymbolTable) : Prop where
  depth : u.depth = t.depth
  size : u.symbols.size = t.symbols.size
  binds : ∀ n d j, u.Binds n d j ↔ t.Binds n d j
  type : ∀ id, (u.get? id).bind Symbol.type = (t.get? id).bind Symbol.type

/-- The table `u` has the symbols of `t` and maybe others, of the current scope or of scopes that
have closed. -/
structure Grows (t u : SymbolTable) : Prop where
  depth : u.depth = t.depth
  size : t.symbols.size ≤ u.symbols.size
  binds : ∀ n d j, d < t.depth → (u.Binds n d j ↔ t.Binds n d j)
  type : ∀ id, id < t.symbols.size →
    (u.get? id).bind Symbol.type = (t.get? id).bind Symbol.type

theorem SameShape.refl (t : SymbolTable) : t.SameShape t :=
  ⟨rfl, rfl, fun _ _ _ => Iff.rfl, fun _ => rfl⟩

theorem SameShape.trans (h : t.SameShape u) (h' : u.SameShape w) : t.SameShape w :=
  ⟨h'.depth.trans h.depth, h'.size.trans h.size,
    fun n d j => (h'.binds n d j).trans (h.binds n d j),
    fun id => (h'.type id).trans (h.type id)⟩

theorem SameShape.grows (h : t.SameShape u) : t.Grows u :=
  ⟨h.depth, Nat.le_of_eq h.size.symm, fun n d j _ => h.binds n d j, fun id _ => h.type id⟩

theorem Grows.refl (t : SymbolTable) : t.Grows t := (SameShape.refl t).grows

theorem Grows.trans (h : t.Grows u) (h' : u.Grows w) : t.Grows w :=
  ⟨h'.depth.trans h.depth, Nat.le_trans h.size h'.size,
    fun n d j hd => (h'.binds n d j (h.depth ▸ hd)).trans (h.binds n d j hd),
    fun id hid => (h'.type id (Nat.lt_of_lt_of_le hid h.size)).trans (h.type id hid)⟩

/-- Tables with the same bindings find the same symbols. -/
theorem lookup?_congr (ht : t.WellFormed) (hu : u.WellFormed)
    (hb : ∀ n d j, u.Binds n d j ↔ t.Binds n d j) (name : String) :
    u.lookup? name = t.lookup? name := by
  refine Option.ext fun id => ?_
  rw [lookup?_eq_some_iff hu, lookup?_eq_some_iff ht]
  simp only [hb]

theorem size_modify (t : SymbolTable) (id : SymbolId) (f : Symbol → Symbol) :
    (t.modify id f).symbols.size = t.symbols.size := Array.size_modify

theorem sameShape_assign (t : SymbolTable) (id : SymbolId) (value : Option Value) :
    t.SameShape (t.assign id value) := by
  refine ⟨rfl, size_modify t id _, fun n d j => binds_modify _ (keeps_assigned value), fun j => ?_⟩
  rw [assign, get?_modify]
  split
  · cases t.get? j with
    | none => rfl
    | some s =>
      dsimp only [Option.map_some, Option.bind_some, Symbol.assigned]
      split <;> rfl
  · rfl

/-- The symbol with number `id` is `s` in `u`, and all others are those of `t`. -/
def Updates (t : SymbolTable) (id : SymbolId) (s : Symbol) (u : SymbolTable) : Prop :=
  ∀ j, u.get? j = if j = id then some s else t.get? j

theorem Updates.eq_or_get? {s s' : Symbol} (hu : t.Updates id s u) (hj : u.get? j = some s') :
    j = id ∧ s' = s ∨ t.get? j = some s' := by
  rw [hu] at hj
  split at hj
  · next he => exact .inl ⟨he, (Option.some.inj hj).symm⟩
  · exact .inr hj

/-- The table `u` is `t` with the new symbol `s` of the current scope. -/
structure Gains (t : SymbolTable) (s : Symbol) (u : SymbolTable) : Prop where
  wellFormed : u.WellFormed
  depth : u.depth = t.depth
  size : u.symbols.size = t.symbols.size + 1
  get? : ∀ j, u.get? j = if j = t.symbols.size then some s else t.get? j
  binds : ∀ n d j, u.Binds n d j ↔
    t.Binds n d j ∨ (n = s.name ∧ d = t.depth ∧ j = t.symbols.size)

theorem size_insert (t : SymbolTable) (name : String) (kind : SymbolKind) (type : Option DataType)
    (value : Option Value) (line : Nat) :
    (t.insert name kind type value line).symbols.size = t.symbols.size + 1 := by
  rw [symbols_insert, Array.size_push]

/-- A name that the current scope does not bind is declared by a new symbol. -/
theorem gains_declare (h : t.WellFormed) (hn : ∀ j, ¬t.Binds name t.depth j) (kind : SymbolKind)
    (type : DataType) (value : Option Value) (line : Nat) :
    t.Gains ⟨name, kind, some type, t.depth, line, value.map (·.convert type), true⟩
        (t.declare name kind type value line).2 ∧
      (t.declare name kind type value line).1.id = t.symbols.size ∧
      ∀ id, (t.declare name kind type value line).1 ≠ .redefinition id := by
  have hw := h.declare kind type value line name
  have hd := depth_declare kind type value line t name
  cases hl : t.lookup? name with
  | some hidden =>
    rw [declare_of_hidden kind type value line h hn hl] at hw hd ⊢
    exact ⟨⟨hw, hd, size_insert .., fun _ => get?_insert .., fun _ _ _ => binds_insert ..⟩, rfl,
      by simp⟩
  | none =>
    rw [declare_of_not_lookup? kind type value line hl] at hw hd ⊢
    refine ⟨⟨hw, hd, (size_modify ..).trans (size_insert ..), fun j => ?_, fun n d j => ?_⟩, rfl,
      by simp⟩
    · rw [get?_modify, get?_insert]
      by_cases hj : j = t.symbols.size
      · rw [if_pos hj.symm, if_pos hj, if_pos hj]
        rfl
      · rw [if_neg (Ne.symm hj), if_neg hj, if_neg hj]
    · rw [binds_modify _ (keeps_declaring kind type value line), binds_insert]

/-- What a declaration answers and does to the symbols. -/
inductive Declares (t : SymbolTable) (name : String) (kind : SymbolKind) (type : DataType)
    (value : Option Value) (line : Nat) : Declared × SymbolTable → Prop
  /-- The current scope has the name with a type. -/
  | redefinition {id : SymbolId} (hb : t.Binds name t.depth id) (ht : t.hasType id = true) :
    Declares t name kind type value line (.redefinition id, t)
  /-- The current scope has the name without a type. -/
  | typing {id : SymbolId} {s : Symbol} (hs : t.get? id = some s) (hv : s.valid = true)
      (hn : s.name = name) (hd : s.scope = t.depth) (ht : s.type = none) :
    Declares t name kind type value line
      (.fresh id, t.modify id (declaring kind type value line))
  /-- The current scope does not have the name. -/
  | new {declared : Declared} {u : SymbolTable}
      (hg : t.Gains ⟨name, kind, some type, t.depth, line, value.map (·.convert type), true⟩ u)
      (hid : declared.id = t.symbols.size) (hne : ∀ id, declared ≠ .redefinition id) :
    Declares t name kind type value line (declared, u)

theorem declare_declares (h : t.WellFormed) (name : String) (kind : SymbolKind) (type : DataType)
    (value : Option Value) (line : Nat) :
    t.Declares name kind type value line (t.declare name kind type value line) := by
  by_cases hb : ∃ id, t.Binds name t.depth id
  · obtain ⟨id, hb⟩ := hb
    rw [declare_of_binds kind type value line h hb]
    split
    · next ht => exact .redefinition hb ht
    · next ht =>
      obtain ⟨s, hs, hv, hn, hd⟩ := hb
      rw [hs] at ht
      exact .typing hs hv hn hd (by simpa [Symbol.isTyped] using ht)
  · obtain ⟨hg, hid, hne⟩ := gains_declare h (not_exists.1 hb) kind type value line
    exact .new hg hid hne

/-- The new symbol is the innermost of its name. -/
theorem Gains.lookup? {s : Symbol} (hg : t.Gains s u) (h : t.WellFormed) (n : String) :
    u.lookup? n = if n = s.name then some t.symbols.size else t.lookup? n := by
  split
  · next hn =>
    refine (lookup?_eq_some_iff hg.wellFormed).2 ⟨t.depth, ?_, fun d j hj => ?_⟩
    · exact (hg.binds n _ _).2 (.inr ⟨hn, rfl, rfl⟩)
    · exact hg.depth ▸ hg.wellFormed.scope_le hj
  · next hn =>
    refine Option.ext fun id => ?_
    rw [lookup?_eq_some_iff hg.wellFormed, lookup?_eq_some_iff h]
    simp only [hg.binds, hn, false_and, or_false]

theorem Gains.grows {s : Symbol} (hg : t.Gains s u) : t.Grows u := by
  refine ⟨hg.depth, hg.size ▸ Nat.le_succ _, fun n d j hd => ?_, fun id hid => ?_⟩
  · rw [hg.binds, or_iff_left]
    rintro ⟨-, rfl, -⟩
    exact Nat.lt_irrefl _ hd
  · rw [hg.get?, if_neg (Nat.ne_of_lt hid)]

theorem size_closeScope (h : t.WellFormed) (hd : 0 < t.depth) :
    t.closeScope.symbols.size = t.symbols.size := by
  have hlt : ∀ j, t.symbols.size ≤ j ↔ t.closeScope.symbols.size ≤ j := fun j => by
    rw [← Array.getElem?_eq_none_iff, ← Array.getElem?_eq_none_iff]
    change t.get? j = none ↔ t.closeScope.get? j = none
    rw [get?_closeScope h hd, Option.map_eq_none_iff]
  exact Nat.le_antisymm ((hlt _).1 (Nat.le_refl _)) ((hlt _).2 (Nat.le_refl _))

theorem type_closeScope (h : t.WellFormed) (hd : 0 < t.depth) (id : SymbolId) :
    (t.closeScope.get? id).bind Symbol.type = (t.get? id).bind Symbol.type := by
  rw [get?_closeScope h hd]
  cases t.get? id with
  | none => rfl
  | some s =>
    dsimp only [Option.map_some, Option.bind_some]
    split <;> rfl

/-- A block ends as it began, with other symbols that are out of scope. -/
theorem Grows.closeScope (hg : t.openScope.Grows u) (h : t.WellFormed) (hu : u.WellFormed) :
    u.closeScope.depth = t.depth ∧ ∀ n d j, u.closeScope.Binds n d j ↔ t.Binds n d j := by
  have hd : u.depth = t.depth + 1 := hg.depth
  have hpos : 0 < u.depth := hd ▸ Nat.succ_pos _
  refine ⟨by rw [depth_closeScope hpos, hd]; rfl, fun n d j => ?_⟩
  rw [binds_closeScope hu hpos, hd]
  constructor
  · rintro ⟨hb, hne⟩
    refine (hg.binds n d j ?_).1 hb
    have hle := hu.scope_le hb
    have ho : t.openScope.depth = t.depth + 1 := rfl
    omega
  · intro hb
    have hle := h.scope_le hb
    exact ⟨(hg.binds n d j (Nat.lt_succ_of_le hle)).2 hb, Nat.ne_of_lt (Nat.lt_succ_of_le hle)⟩

theorem Grows.block (hg : t.openScope.Grows u) (h : t.WellFormed) (hu : u.WellFormed) :
    t.Grows u.closeScope := by
  obtain ⟨hd, hb⟩ := hg.closeScope h hu
  have hpos : 0 < u.depth := by
    rw [hg.depth]
    exact Nat.succ_pos _
  refine ⟨hd, ?_, fun n d j _ => hb n d j, fun id hid => ?_⟩
  · rw [size_closeScope hu hpos]
    exact hg.size
  · rw [type_closeScope hu hpos]
    exact hg.type id hid

/-! ## A property of every symbol -/

/-- Every symbol of the table has the property. -/
def Each (P : Symbol → Prop) (t : SymbolTable) : Prop := ∀ id s, t.get? id = some s → P s

variable {P : Symbol → Prop} {s : Symbol}

theorem each_empty (P : Symbol → Prop) : empty.Each P := by
  intro id s hs
  simp [empty, get?] at hs

theorem Each.updates (h : t.Each P) (hs : P s) (hu : t.Updates id s u) : u.Each P := by
  intro j s' hj
  rcases hu.eq_or_get? hj with ⟨-, rfl⟩ | hj
  · exact hs
  · exact h j s' hj

theorem Each.modify (h : t.Each P) {f : Symbol → Symbol} (hf : ∀ s, P s → P (f s))
    (id : SymbolId) : (t.modify id f).Each P := by
  intro j s hs
  rw [get?_modify] at hs
  split at hs
  · obtain ⟨s, hj, rfl⟩ := Option.map_eq_some_iff.1 hs
    exact hf s (h j s hj)
  · exact h j s hs

/-- Only the symbols of an inner scope go out of scope. -/
theorem Each.closeScope (h : t.Each P) (hw : t.WellFormed)
    (hr : ∀ s : Symbol, 0 < s.scope → P s → P (retired s)) : t.closeScope.Each P := by
  rcases Nat.eq_zero_or_pos t.depth with hd | hd
  · rwa [closeScope_of_depth_eq_zero hd]
  · intro j s hs
    rw [get?_closeScope hw hd] at hs
    obtain ⟨s, hj, rfl⟩ := Option.map_eq_some_iff.1 hs
    split
    · next hscope => exact hr s (hscope ▸ hd) (h j s hj)
    · exact h j s hj

end SymbolTable

end MiniC
