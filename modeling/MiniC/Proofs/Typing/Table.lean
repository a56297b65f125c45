import MiniC.Proofs.Visibility
import MiniC.Proofs.Symbol.Growth

/-!
# The types of symbols and those of their values

A symbol is `Symbol.Sound` when it has a type and its value, if it is known, is of that type; a
table is when all its symbols are. A type once given stays (`SymbolTable.KeepsTypes`), and a declaration
or the end of a scope makes no value. An assignment converts the value to the type of the symbol,
unless that is `void`, so it keeps a table sound in which no value of a `void` symbol is known
(`SymbolTable.VoidUnknown`).

`Analyzer.Touches.sound` is what one event does : it keeps the table sound, if it is no use of a
name that makes a symbol.
-/

namespace MiniC

/-- The symbol has a type, and its value, if it is known, is of that type. -/
structure Symbol.Sound (s : Symbol) : Prop where
  isTyped : s.isTyped = true
  value : ∀ v, s.value = some v → s.type = some v.type

namespace SymbolTable

/-- Every symbol has a type, and every known value is of the type of its symbol. -/
def Sound (t : SymbolTable) : Prop := ∀ id s, t.get? id = some s → s.Sound

/-- No value of a symbol of type `void` is known. -/
def VoidUnknown (t : SymbolTable) : Prop :=
  ∀ id s, t.get? id = some s → s.type = some .void → s.value = none

/-- The symbols of `t` have the same types in `u`. -/
def KeepsTypes (t u : SymbolTable) : Prop :=
  ∀ id type, (t.get? id).bind Symbol.type = some type → (u.get? id).bind Symbol.type = some type

variable {t u : SymbolTable} {id : SymbolId} {s : Symbol}

theorem sound_empty : empty.Sound := each_empty _

theorem hasType_iff : t.hasType id = true ↔ ∃ type, (t.get? id).bind Symbol.type = some type := by
  unfold hasType
  cases t.get? id with
  | none => simp
  | some s => exact Option.isSome_iff_exists

theorem Sound.hasType (h : t.Sound) (hs : t.get? id = some s) : t.hasType id = true := by
  unfold SymbolTable.hasType
  rw [hs]
  exact (h id s hs).isTyped

theorem KeepsTypes.hasType (h : t.KeepsTypes u) (ht : t.hasType id = true) :
    u.hasType id = true := by
  obtain ⟨type, hi⟩ := hasType_iff.1 ht
  exact hasType_iff.2 ⟨type, h id type hi⟩

theorem keepsTypes_of_eq (h : ∀ id, (u.get? id).bind Symbol.type = (t.get? id).bind Symbol.type) :
    t.KeepsTypes u := fun id _ ht => (h id).trans ht

theorem keepsTypes_refl (t : SymbolTable) : t.KeepsTypes t := keepsTypes_of_eq fun _ => rfl

theorem Grows.keepsTypes (h : t.Grows u) : t.KeepsTypes u := by
  intro id type ht
  obtain ⟨s, hs, -⟩ := Option.bind_eq_some_iff.1 ht
  rw [h.type id (Array.getElem?_eq_some_iff.1 hs).1, ht]

/-! ## The operations -/

theorem Sound.gains (h : t.Sound) (hg : t.Gains s u) (hs : s.Sound) : u.Sound :=
  Each.updates h hs hg.get?

theorem Sound.closeScope (h : t.Sound) (hw : t.WellFormed) : t.closeScope.Sound :=
  Each.closeScope h hw fun _ _ hs => ⟨hs.isTyped, hs.value⟩

theorem keepsTypes_closeScope (hw : t.WellFormed) : t.KeepsTypes t.closeScope := by
  rcases Nat.eq_zero_or_pos t.depth with hd | hd
  · rw [closeScope_of_depth_eq_zero hd]
    exact keepsTypes_refl t
  · exact keepsTypes_of_eq (type_closeScope hw hd)

theorem Sound.assign {value : Option Value} (h : t.Sound) (hv : (t.assign id value).VoidUnknown) :
    (t.assign id value).Sound := by
  intro j s hs
  have hm := hs
  rw [SymbolTable.assign, get?_modify] at hm
  split at hm
  · obtain ⟨s, hj, rfl⟩ := Option.map_eq_some_iff.1 hm
    obtain ⟨type, ht⟩ := Option.isSome_iff_exists.1 (h j s hj).isTyped
    have ha : s.assigned value = { s with value := value.map (·.convert type) } := by
      simp only [Symbol.assigned, ht]
    rw [ha] at hs ⊢
    refine ⟨(h j s hj).isTyped, fun w hw => ?_⟩
    by_cases hvoid : type = .void
    · cases hw.symm.trans (hv j _ hs (by rw [ht, hvoid]))
    · obtain ⟨v, -, rfl⟩ := Option.map_eq_some_iff.1 hw
      rw [Value.type_convert v hvoid, ht]
  · exact h j s hm

/-- Where every symbol has a type, a declaration either finds one of the name in the current scope,
and leaves the table as it is, or makes a new one. -/
theorem declare_cases (hw : t.WellFormed) (h : t.Sound) (name : String) (kind : SymbolKind)
    (type : DataType) (line : Nat) :
    (∃ id, t.declare name kind type none line = (.redefinition id, t) ∧ t.hasType id = true) ∨
      (t.Gains ⟨name, kind, some type, t.depth, line, none, true⟩
          (t.declare name kind type none line).2 ∧
        (t.declare name kind type none line).1.id = t.symbols.size) := by
  have hd := declare_declares hw name kind type none line
  generalize t.declare name kind type none line = r at hd ⊢
  cases hd with
  | redefinition _ ht => exact .inl ⟨_, rfl, ht⟩
  | typing hs _ _ _ ht => exact absurd (h _ _ hs).isTyped (by simp [Symbol.isTyped, ht])
  | new hg hid _ => exact .inr ⟨hg, hid⟩

theorem Sound.declare (h : t.Sound) (hw : t.WellFormed) (name : String) (kind : SymbolKind)
    (type : DataType) (line : Nat) : (t.declare name kind type none line).2.Sound ∧
      t.KeepsTypes (t.declare name kind type none line).2 := by
  rcases declare_cases hw h name kind type line with ⟨id, hd, -⟩ | ⟨hg, -⟩
  · rw [hd]
    exact ⟨h, keepsTypes_refl t⟩
  · exact ⟨h.gains hg ⟨rfl, nofun⟩, hg.grows.keepsTypes⟩

end SymbolTable

open SymbolTable

namespace Analyzer

variable {a : Analyzer} {line : Nat} {r : Rule} {u : SymbolTable}

/-- An event keeps the types of all symbols, and their values of these types. -/
theorem Touches.sound (ht : Touches a line r u) (hw : a.symbols.WellFormed) (h : a.symbols.Sound)
    (hn : ∀ name, r = .identifier name → u = a.symbols) (hv : u.VoidUnknown) :
    u.Sound ∧ a.symbols.KeepsTypes u := by
  cases ht with
  | openScope | idle => exact ⟨h, keepsTypes_refl _⟩
  | closeScope | functionDefinition => exact ⟨h.closeScope hw, keepsTypes_closeScope hw⟩
  | functionDeclarator | parameter | declTarget | declarator => exact h.declare hw ..
  | identifier name =>
    rw [hn name rfl]
    exact ⟨h, keepsTypes_refl _⟩
  | assign | initDeclarator =>
    exact ⟨h.assign hv, (sameShape_assign ..).grows.keepsTypes⟩

end Analyzer

end MiniC
