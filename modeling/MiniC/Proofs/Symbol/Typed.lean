import MiniC.Proofs.Symbol.WellFormed

/-!
# Which names a scope holds, with and without a type

`SymbolTable.Holds t typed name scope` says that the scope has a symbol of the name, and whether the
symbol has a type. Here is what each operation does to that, in a well-formed table : a declaration
makes the name of the current scope one with a type (`holds_declare`), a use of a name that no scope
holds makes it one without (`holds_resolve`), closing a scope leaves the names of the scopes around
it (`holds_closeScope`).
-/

namespace MiniC

namespace SymbolTable

/-- Whether the symbol has a type. -/
def hasType (t : SymbolTable) (id : SymbolId) : Bool := (t.get? id).any Symbol.isTyped

/-- The scope has a symbol of the name, with or without a type. -/
def Holds (t : SymbolTable) (typed : Bool) (name : String) (scope : Nat) : Prop :=
  ∃ id, t.Binds name scope id ∧ t.hasType id = typed

variable {t : SymbolTable} {typed : Bool} {name n : String} {scope d : Nat} {id j : SymbolId}

theorem WellFormed.scope_le_of_holds (h : t.WellFormed) (hh : t.Holds typed name scope) :
    scope ≤ t.depth := by
  obtain ⟨id, hb, -⟩ := hh
  exact h.scope_le hb

/-- A scope holds a name with a type or without, not both. -/
theorem WellFormed.hasType_of_holds (h : t.WellFormed) (hb : t.Binds name scope id)
    (hh : t.Holds typed name scope) : t.hasType id = typed := by
  obtain ⟨j, hj, ht⟩ := hh
  rwa [h.binds_unique hb hj]

theorem Binds.holds (hb : t.Binds name scope id) : t.Holds (t.hasType id) name scope :=
  ⟨id, hb, rfl⟩

theorem lookup?_eq_none_iff_not_holds (h : t.WellFormed) :
    t.lookup? name = none ↔ ∀ typed scope, ¬t.Holds typed name scope := by
  rw [lookup?_eq_none_iff h]
  constructor
  · rintro hn typed scope ⟨id, hb, -⟩
    exact hn scope id hb
  · intro hn scope id hb
    exact hn _ scope hb.holds

theorem not_holds_empty : ¬empty.Holds typed name scope := by
  rintro ⟨id, ⟨s, hs, -⟩, -⟩
  simp [empty, get?] at hs

theorem holds_openScope : t.openScope.Holds typed name scope ↔ t.Holds typed name scope := Iff.rfl

theorem holds_closeScope (h : t.WellFormed) : t.closeScope.Holds typed name scope ↔
    t.Holds typed name scope ∧ scope ≤ t.depth - 1 := by
  rcases Nat.eq_zero_or_pos t.depth with hd | hd
  · rw [closeScope_of_depth_eq_zero hd]
    refine ⟨fun hh => ⟨hh, ?_⟩, And.left⟩
    have := h.scope_le_of_holds hh
    omega
  · have ht : ∀ id, t.closeScope.hasType id = t.hasType id := by
      intro id
      unfold hasType
      rw [get?_closeScope h hd]
      cases t.get? id with
      | none => rfl
      | some s =>
        dsimp only [Option.map_some, Option.any_some]
        split <;> rfl
    unfold Holds
    simp only [binds_closeScope h hd, ht]
    constructor
    · rintro ⟨id, ⟨hb, hne⟩, hi⟩
      have hle := h.scope_le hb
      exact ⟨⟨id, hb, hi⟩, by omega⟩
    · rintro ⟨⟨id, hb, hi⟩, hle⟩
      exact ⟨id, ⟨hb, by omega⟩, hi⟩

/-- A change to symbols that does not touch their types. -/
theorem holds_modify {f : Symbol → Symbol} (hf : Keeps f) (ht : ∀ s, (f s).isTyped = s.isTyped)
    (id : SymbolId) : (t.modify id f).Holds typed name scope ↔ t.Holds typed name scope := by
  have hty : ∀ j, (t.modify id f).hasType j = t.hasType j := by
    intro j
    unfold hasType
    rw [get?_modify]
    split
    · cases t.get? j <;> simp [ht]
    · rfl
  unfold Holds
  simp only [binds_modify f hf, hty]

theorem holds_assign (id : SymbolId) (value : Option Value) :
    (t.assign id value).Holds typed name scope ↔ t.Holds typed name scope :=
  holds_modify (keeps_assigned value) (isTyped_assigned value) id

/-! ## New symbols and new types -/

theorem hasType_insert_of_lt (hj : j < t.symbols.size) (kind : SymbolKind)
    (type : Option DataType) (value : Option Value) (line : Nat) :
    (t.insert name kind type value line).hasType j = t.hasType j := by
  unfold hasType
  rw [get?_insert, if_neg (Nat.ne_of_lt hj)]

theorem hasType_insert_size (kind : SymbolKind) (type : Option DataType) (value : Option Value)
    (line : Nat) : (t.insert name kind type value line).hasType t.symbols.size = type.isSome := by
  unfold hasType
  rw [get?_insert, if_pos rfl]
  rfl

theorem holds_insert (kind : SymbolKind) (type : Option DataType) (value : Option Value)
    (line : Nat) : (t.insert name kind type value line).Holds typed n d ↔
      t.Holds typed n d ∨ (n = name ∧ d = t.depth ∧ type.isSome = typed) := by
  unfold Holds
  simp only [binds_insert]
  constructor
  · rintro ⟨j, hj | ⟨hn, hd, rfl⟩, ht⟩
    · exact .inl ⟨j, hj, by rwa [hasType_insert_of_lt hj.lt_size] at ht⟩
    · exact .inr ⟨hn, hd, by rwa [hasType_insert_size] at ht⟩
  · rintro (⟨j, hj, ht⟩ | ⟨hn, hd, ht⟩)
    · exact ⟨j, .inl hj, by rwa [hasType_insert_of_lt hj.lt_size]⟩
    · exact ⟨t.symbols.size, .inr ⟨hn, hd, rfl⟩, by rwa [hasType_insert_size]⟩

/-- A name that no scope holds gets a symbol without a type. -/
theorem holds_resolve (line : Nat) : (t.resolve name line).2.Holds typed n d ↔
    t.Holds typed n d ∨ (n = name ∧ d = t.depth ∧ typed = false ∧ t.lookup? name = none) := by
  cases hl : t.lookup? name with
  | some id => simp [resolve_of_lookup? line hl]
  | none =>
    rw [resolve_of_not_lookup? line hl, holds_insert]
    simp [eq_comm]

/-- Giving a type to the symbol of a name in a scope. -/
theorem holds_modify_typed (h : t.WellFormed) (hb : t.Binds name scope id) {f : Symbol → Symbol}
    (hf : Keeps f) (ht : ∀ s, (f s).isTyped = true) : (t.modify id f).Holds typed n d ↔
      if n = name ∧ d = scope then typed = true else t.Holds typed n d := by
  have hid : (t.modify id f).hasType id = true := by
    obtain ⟨s, hs, -⟩ := hb
    simp [hasType, get?_modify, hs, ht]
  have hother : ∀ {j}, id ≠ j → (t.modify id f).hasType j = t.hasType j := by
    intro j hj
    simp [hasType, get?_modify, hj]
  unfold Holds
  simp only [binds_modify f hf]
  split
  · next he =>
    obtain ⟨rfl, rfl⟩ := he
    constructor
    · rintro ⟨j, hj, hjt⟩
      obtain rfl := h.binds_unique hb hj
      exact hjt.symm.trans hid
    · rintro rfl
      exact ⟨id, hb, hid⟩
  · next he =>
    have hne : ∀ {j}, t.Binds n d j → id ≠ j := by
      rintro j hj rfl
      exact he (hb.name_scope_unique hj)
    refine exists_congr fun j => and_congr_right fun hj => ?_
    rw [hother (hne hj)]

/-- A declared name has a type in the current scope. -/
theorem holds_declare (h : t.WellFormed) (kind : SymbolKind) (type : DataType)
    (value : Option Value) (line : Nat) : (t.declare name kind type value line).2.Holds typed n d ↔
      if n = name ∧ d = t.depth then typed = true else t.Holds typed n d := by
  have htyped := isTyped_declaring kind type value line
  by_cases hb : ∃ id, t.Binds name t.depth id
  · obtain ⟨id, hb⟩ := hb
    rw [declare_of_binds kind type value line h hb]
    split
    · next ht =>
      -- the name had a type before
      split
      · next he =>
        obtain ⟨rfl, rfl⟩ := he
        constructor
        · exact fun hh => (h.hasType_of_holds hb hh).symm.trans ht
        · exact fun he => ⟨id, hb, ht.trans he.symm⟩
      · rfl
    · exact holds_modify_typed h hb (keeps_declaring kind type value line) htyped
  · have hn := not_exists.1 hb
    have hno : ¬t.Holds typed name t.depth := fun ⟨id, hi, _⟩ => hn id hi
    cases hl : t.lookup? name with
    | some id =>
      rw [declare_of_hidden kind type value line h hn hl, holds_insert]
      split
      · next he =>
        obtain ⟨rfl, rfl⟩ := he
        simp [hno, eq_comm]
      · next he => simp [← and_assoc, he]
    | none =>
      have hw := h.insert hn .identifier none none line
      have hnew := (binds_insert t name .identifier none none line name t.depth t.symbols.size).2
        (.inr ⟨rfl, rfl, rfl⟩)
      rw [declare_of_not_lookup? kind type value line hl,
        holds_modify_typed hw hnew (keeps_declaring kind type value line) htyped, holds_insert]
      split
      · rfl
      · next he => simp [← and_assoc, he]

end SymbolTable

end MiniC
