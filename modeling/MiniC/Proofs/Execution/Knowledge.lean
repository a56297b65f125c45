import MiniC.Proofs.Execution.Machine
import MiniC.Proofs.Symbol.Growth

/-!
# What a symbol table knows of a running function

The symbol with number 0 is the function, and the one with number `position + 1` is the variable at
the position. A table `Knows` a machine when every name in scope stands for the symbol of its
variable, and when the value that a symbol is known to hold is the number in its variable
(`Symbol.Admits`). A symbol need not be known to hold any.

A store in a variable and in its symbol keeps that (`Knows.assign`), and so do a declaration
(`Knows.declare`) and a nested block (`Knows.openScope`, `Knows.closeScope`).
-/

namespace MiniC

/-- The symbol is that of the variable, and the value it is known to hold, if any, is the number in
the variable. -/
structure Symbol.Admits (s : Symbol) (x : Variable) : Prop where
  name : s.name = x.name
  type : s.type = some x.type
  value : ∀ v ∈ s.value, v.type = x.type ∧ v.Denotes x.value

/-- What is stored in a symbol is what it is known to hold. -/
theorem Symbol.Admits.assigned {s : Symbol} {x : Variable} (h : s.Admits x)
    (hi : x.type.IsInteger) {n : Int} {value : Option Value}
    (hv : ∀ v ∈ value, v.type = x.type ∧ v.Denotes (x.type.fit n)) :
    (s.assigned value).Admits { x with value := x.type.fit n } := by
  have he : s.assigned value = { s with value := value.map (·.convert x.type) } := by
    rw [Symbol.assigned, h.type]
  rw [he]
  refine ⟨h.name, h.type, fun w hw => ?_⟩
  obtain ⟨v, hm, rfl⟩ := Option.map_eq_some_iff.1 hw
  obtain ⟨hd, ht⟩ := (hv v hm).2.convert hi
  exact ⟨ht, by rwa [DataType.fit_fit] at hd⟩

/-- The variable at the position holds a whole number. -/
def Memory.HoldsInteger (memory : Memory) (position : Nat) : Prop :=
  ∃ x, memory[position]? = some x ∧ x.type.IsInteger

theorem Memory.HoldsInteger.store {memory : Memory} {position : Nat}
    (h : memory.HoldsInteger position) (j : Nat) (n : Int) :
    (memory.store j n).HoldsInteger position := by
  obtain ⟨x, hx, hi⟩ := h
  refine ⟨if j = position then { x with value := x.type.fit n } else x, ?_, by split <;> exact hi⟩
  rw [Memory.store, List.getElem?_modify, hx]
  rfl

theorem Memory.HoldsInteger.append {memory : Memory} {position : Nat}
    (h : memory.HoldsInteger position) (more : Memory) :
    (memory ++ more).HoldsInteger position := by
  obtain ⟨x, hx, hi⟩ := h
  have hlt : position < memory.length := (List.getElem?_eq_some_iff.1 hx).1
  exact ⟨x, (List.getElem?_append_left hlt).trans hx, hi⟩

/-- A name that is found when others are left out. -/
theorem Names.lookup_filter {names : Names} {name n : String} {position : Nat}
    (h : (names.filter (·.1 ≠ name)).lookup n = some position) :
    n ≠ name ∧ names.lookup n = some position := by
  induction names with
  | nil => cases h
  | cons entry names ih =>
    obtain ⟨other, j⟩ := entry
    by_cases ho : other = name
    · rw [List.filter_cons_of_neg (by simpa using ho)] at h
      obtain ⟨hn, hl⟩ := ih h
      have hno : (n == other) = false := beq_eq_false_iff_ne.2 (ho ▸ hn)
      exact ⟨hn, by rwa [List.lookup_cons, hno]⟩
    · rw [List.filter_cons_of_pos (by simpa using ho), List.lookup_cons] at h
      rw [List.lookup_cons]
      split at h
      · next hno => exact ⟨(beq_iff_eq.1 hno).symm ▸ ho, h⟩
      · exact ih h

namespace SymbolTable

/-- What the table knows is so in the machine. -/
structure Knows (t : SymbolTable) (m : Machine) : Prop where
  wellFormed : t.WellFormed
  size : t.symbols.size = m.memory.length + 1
  /-- The function itself is not known to hold anything. -/
  function : ∀ s, t.get? 0 = some s → s.isTyped ∧ s.value = none
  memory : ∀ position x, m.memory[position]? = some x →
    ∃ s, t.get? (position + 1) = some s ∧ s.Admits x
  names : ∀ name position, m.names.lookup name = some position →
    t.lookup? name = some (position + 1) ∧ m.memory.HoldsInteger position

variable {t u : SymbolTable} {m : Machine} {name : String} {position : Nat} {x : Variable}

namespace Knows

/-- A name in scope stands for the symbol of its variable, which holds a whole number. -/
theorem find? (h : t.Knows m) (hf : m.memory.find? m.names name = some (position, x)) :
    t.lookup? name = some (position + 1) ∧ x.type.IsInteger ∧
      ∃ s, t.get? (position + 1) = some s ∧ s.Admits x := by
  simp only [Memory.find?, Option.bind_eq_bind, Option.bind_eq_some_iff, Option.pure_def,
    Option.some.injEq, Prod.mk.injEq] at hf
  obtain ⟨_, hp, _, hx, rfl, rfl⟩ := hf
  obtain ⟨hl, y, hy, hi⟩ := h.names _ _ hp
  obtain rfl := Option.some.inj (hx.symm.trans hy)
  exact ⟨hl, hi, h.memory _ _ hx⟩

theorem exists_find? (h : t.Knows m) (hn : name ∈ m.visible) :
    ∃ position x, m.memory.find? m.names name = some (position, x) := by
  obtain ⟨position, hp⟩ : ∃ position, m.names.lookup name = some position := by
    rw [← Option.isSome_iff_exists, List.lookup_isSome_iff]
    obtain ⟨entry, he, rfl⟩ := List.mem_map.1 hn
    exact ⟨entry, he, beq_self_eq_true _⟩
  obtain ⟨-, x, hx, -⟩ := h.names _ _ hp
  exact ⟨position, x, by simp [Memory.find?, hp, hx]⟩

/-- A symbol behind the first is that of a variable. -/
theorem exists_admits (h : t.Knows m) {s : Symbol} (hs : t.get? (position + 1) = some s) :
    ∃ x, m.memory[position]? = some x ∧ s.Admits x := by
  have hlt : position + 1 < t.symbols.size := (Array.getElem?_eq_some_iff.1 hs).1
  rw [h.size] at hlt
  have hx := List.getElem?_eq_getElem (Nat.lt_of_succ_lt_succ hlt)
  obtain ⟨s', hs', ha⟩ := h.memory position _ hx
  obtain rfl := Option.some.inj (hs.symm.trans hs')
  exact ⟨_, hx, ha⟩

/-- Every symbol has a type. -/
theorem isTyped (h : t.Knows m) {id : SymbolId} {s : Symbol} (hs : t.get? id = some s) :
    s.isTyped = true := by
  cases id with
  | zero => exact (h.function s hs).1
  | succ position =>
    obtain ⟨x, -, ha⟩ := h.exists_admits hs
    rw [Symbol.isTyped, ha.type]
    rfl

theorem exists_variable (h : t.Knows m) {type : DataType}
    (ht : (t.get? (position + 1)).bind Symbol.type = some type) :
    ∃ x, m.memory[position]? = some x ∧ x.type = type := by
  obtain ⟨s, hs, hst⟩ := Option.bind_eq_some_iff.1 ht
  obtain ⟨x, hx, ha⟩ := h.exists_admits hs
  exact ⟨x, hx, Option.some.inj (ha.type.symm.trans hst)⟩

/-- A store in a variable, of which `value` is known. -/
theorem assign (h : t.Knows m) (hx : m.memory[position]? = some x) (hi : x.type.IsInteger) {n : Int}
    {value : Option Value} (hv : ∀ v ∈ value, v.type = x.type ∧ v.Denotes (x.type.fit n)) :
    (t.assign (position + 1) value).Knows { m with memory := m.memory.store position n } := by
  have hshape := t.sameShape_assign (position + 1) value
  have hw : (t.assign (position + 1) value).WellFormed :=
    h.wellFormed.modify (keeps_assigned value) _
  refine ⟨hw, ?_, fun s hs => ?_, fun j y hy => ?_, fun n j hj => ?_⟩
  · rw [hshape.size, h.size]
    simp [Memory.store]
  · refine h.function s ?_
    rwa [SymbolTable.assign, get?_modify, if_neg (Nat.succ_ne_zero position)] at hs
  · rw [Memory.store, List.getElem?_modify] at hy
    rw [SymbolTable.assign, get?_modify]
    by_cases hp : position = j
    · subst hp
      obtain ⟨s, hs, ha⟩ := h.memory position x hx
      obtain rfl : _ = y := by simpa [hx] using hy
      exact ⟨s.assigned value, by simp [hs], ha.assigned hi hv⟩
    · have hne : position + 1 ≠ j + 1 := fun he => hp (Nat.succ.inj he)
      rw [if_neg hne]
      refine h.memory j y ?_
      simpa [hp] using hy
  · rw [lookup?_congr h.wellFormed hw hshape.binds]
    obtain ⟨hl, hj⟩ := h.names n j hj
    exact ⟨hl, hj.store ..⟩

/-- A declaration adds the symbol and the variable. What the names stand for is up to it. -/
theorem gains (h : t.Knows m) {kind : SymbolKind} {scope line : Nat}
    (hg : t.Gains ⟨x.name, kind, some x.type, scope, line, none, true⟩ u) {names : Names}
    (hn : ∀ n j, names.lookup n = some j →
      u.lookup? n = some (j + 1) ∧ (m.memory ++ [x]).HoldsInteger j) :
    u.Knows ⟨names, m.memory ++ [x]⟩ := by
  have hne : ∀ j, j ≠ t.symbols.size → u.get? j = t.get? j := fun j hj => by
    rw [hg.get?, if_neg hj]
  refine ⟨hg.wellFormed, ?_, fun s hs => ?_, fun j y hy => ?_, hn⟩
  · rw [hg.size, h.size, List.length_append, List.length_singleton]
  · refine h.function s ?_
    rwa [hne 0 (by rw [h.size]; omega)] at hs
  · rcases Nat.lt_trichotomy j m.memory.length with hlt | rfl | hgt
    · rw [hne (j + 1) (by rw [h.size]; omega)]
      refine h.memory j y ?_
      rwa [List.getElem?_append_left hlt] at hy
    · obtain rfl : _ = y := by simpa using hy
      exact ⟨_, by rw [hg.get?, if_pos h.size.symm], rfl, rfl, by simp⟩
    · have hlen : (m.memory ++ [x]).length ≤ j := by
        simpa using Nat.succ_le_of_lt hgt
      rw [List.getElem?_eq_none hlen] at hy
      cases hy

theorem declare (h : t.Knows m) {kind : SymbolKind} {type : DataType} (ht : type.IsInteger)
    {scope line : Nat} (hg : t.Gains ⟨name, kind, some type, scope, line, none, true⟩ u)
    (inputs : Nat → Int) : u.Knows (m.declare inputs name type) := by
  refine h.gains (x := ⟨name, type, type.fit (inputs m.memory.length)⟩) hg fun n j hj => ?_
  rw [hg.lookup? h.wellFormed]
  by_cases hn : n = name
  · obtain rfl : _ = j := by simpa [hn] using hj
    exact ⟨by rw [if_pos hn, h.size], _, List.getElem?_concat_length, ht⟩
  · have hj : m.names.lookup n = some j := by
      simpa [List.lookup_cons, beq_eq_false_iff_ne.2 hn] using hj
    obtain ⟨hl, hj⟩ := h.names n j hj
    exact ⟨by rw [if_neg hn, hl], hj.append _⟩

theorem hide (h : t.Knows m) {kind : SymbolKind} {type : DataType} {scope line : Nat}
    (hg : t.Gains ⟨name, kind, some type, scope, line, none, true⟩ u) :
    u.Knows (m.hide name type) := by
  refine h.gains (x := ⟨name, type, 0⟩) hg fun n j hj => ?_
  rw [hg.lookup? h.wellFormed]
  obtain ⟨hn, hj⟩ := Names.lookup_filter hj
  obtain ⟨hl, hj⟩ := h.names n j hj
  exact ⟨by rw [if_neg hn, hl], hj.append _⟩

theorem openScope (h : t.Knows m) : t.openScope.Knows m :=
  ⟨h.wellFormed.openScope, h.size, h.function, h.memory, h.names⟩

theorem closeScope {m' : Machine} (h : t.Knows m) (hu : u.Knows m') (hg : t.openScope.Grows u) :
    u.closeScope.Knows { m' with names := m.names } := by
  obtain ⟨hd, hb⟩ := hg.closeScope h.wellFormed hu.wellFormed
  have hw := hu.wellFormed.closeScope
  have hpos : 0 < u.depth := by
    rw [hg.depth]
    exact Nat.succ_pos _
  have hget := get?_closeScope hu.wellFormed hpos
  refine ⟨hw, ?_, fun s hs => ?_, fun j y hy => ?_, fun n j hj => ?_⟩
  · rw [size_closeScope hu.wellFormed hpos, hu.size]
  · rw [hget] at hs
    obtain ⟨s, hs', rfl⟩ := Option.map_eq_some_iff.1 hs
    have hf := hu.function s hs'
    split
    · exact hf
    · exact hf
  · obtain ⟨s, hs, ha⟩ := hu.memory j y hy
    refine ⟨if s.scope = u.depth then retired s else s, by rw [hget, hs]; rfl, ?_⟩
    split
    · exact ⟨ha.name, ha.type, ha.value⟩
    · exact ha
  · rw [lookup?_congr h.wellFormed hw hb]
    obtain ⟨hl, x, hx, hi⟩ := h.names n j hj
    -- the variable has still the type that its symbol has
    obtain ⟨s, hs, ha⟩ := h.memory j x hx
    have htype : (u.get? (j + 1)).bind Symbol.type = some x.type := by
      have hlt : j + 1 < t.symbols.size := (Array.getElem?_eq_some_iff.1 hs).1
      rw [hg.type (j + 1) hlt]
      exact Option.bind_eq_some_iff.2 ⟨s, hs, ha.type⟩
    obtain ⟨y, hy, hyx⟩ := hu.exists_variable htype
    exact ⟨hl, y, hy, hyx ▸ hi⟩

end Knows

end SymbolTable

end MiniC
