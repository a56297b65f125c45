import Mathlib
import MiniC.Proofs.Symbol.Growth
import MiniC.Proofs.Symbol.Operation

/-!
# Opening and closing a scope undo each other

`TableOp.Balanced` says that a list of calls closes every scope that it opens, and no other. Between
the opening of a scope and its end, the table `u` keeps the symbols of the table `t` at the opening
(`SymbolTable.Shelters`) : such a symbol changes its type and value alone, and only when a call is
made for its number, and the valid symbols made since belong to scopes inside. Every call keeps that
(`Shelters.perform`), and so do balanced calls (`Shelters.performAll`).

Behind the end of the scope, every name stands for what it stood for, and the symbols made since the
opening are invalid (`balanced_scope_restores`).
-/

namespace MiniC

namespace TableOp

/-- Every scope that the calls open they close, and no other. -/
inductive Balanced : List TableOp → Prop
  | nil : Balanced []
  | cons {op : TableOp} {ops : List TableOp} (ho : op ≠ openScope) (hc : op ≠ closeScope)
      (h : Balanced ops) : Balanced (op :: ops)
  | scope {ops more : List TableOp} (h : Balanced ops) (h' : Balanced more) :
    Balanced (openScope :: ops ++ closeScope :: more)

end TableOp

namespace SymbolTable

/-- The table behind a list of calls. -/
def performed (t : SymbolTable) (ops : List TableOp) : SymbolTable := (t.performAll ops).2

variable {t u : SymbolTable} {name : String} {id j : SymbolId} {touched : SymbolId → Prop}

@[simp] theorem performed_nil (t : SymbolTable) : t.performed [] = t := rfl

theorem performed_cons (t : SymbolTable) (op : TableOp) (ops : List TableOp) :
    t.performed (op :: ops) = (t.perform op).2.performed ops := rfl

theorem performed_append (t : SymbolTable) (ops more : List TableOp) :
    t.performed (ops ++ more) = (t.performed ops).performed more := by
  induction ops generalizing t with
  | nil => rfl
  | cons op ops ih => exact ih (t.perform op).2

/-- The table `u` has the symbols of `t`, and only those in `touched` may have another type or
value. Its other valid symbols belong to scopes inside the current scope of `t`. -/
structure Shelters (touched : SymbolId → Prop) (t u : SymbolTable) : Prop where
  wellFormed : u.WellFormed
  old : ∀ id s, t.get? id = some s → ∃ type value, u.get? id = some { s with type, value } ∧
    (¬touched id → type = s.type ∧ value = s.value)
  inner : ∀ id s, t.get? id = none → u.get? id = some s → s.valid → t.depth < s.scope

/-- A change that leaves a symbol all but its type and its value. -/
def Retypes (f : Symbol → Symbol) : Prop :=
  ∀ s, ∃ type value, f s = { s with type, value }

theorem retypes_declared (type : DataType) (value : Option Value) :
    Retypes (·.declared type value) := by
  intro s
  by_cases hs : s.isTyped
  · exact ⟨s.type, s.value, if_pos hs⟩
  · exact ⟨some type, _, if_neg hs⟩

theorem retypes_assigned (value : Option Value) : Retypes (·.assigned value) := by
  intro s
  dsimp only [Symbol.assigned]
  split
  · exact ⟨s.type, _, rfl⟩
  · exact ⟨s.type, s.value, rfl⟩

namespace Shelters

theorem openScope (h : t.WellFormed) : Shelters touched t t.openScope where
  wellFormed := h.openScope
  old _ s hs := ⟨s.type, s.value, hs, fun _ => ⟨rfl, rfl⟩⟩
  inner id s hn hs := by
    have hsame : t.openScope.get? id = t.get? id := rfl
    rw [hsame, hn] at hs
    cases hs

/-- A symbol of a scope inside was not there before. -/
theorem get?_eq_none_of_binds (hs : Shelters touched t u) (h : t.WellFormed) {d : Nat}
    (hd : t.depth < d) (hb : u.Binds name d id) : t.get? id = none := by
  cases ht : t.get? id with
  | none => rfl
  | some s =>
    obtain ⟨type, value, hu, -⟩ := hs.old id s ht
    obtain ⟨s', hs', hv, hn, hscope⟩ := hb
    obtain rfl := Option.some.inj (hu.symm.trans hs')
    have hle : d ≤ t.depth := h.scope_le ⟨s, ht, hv, hn, hscope⟩
    omega

theorem insert (hs : Shelters touched t u) (hd : t.depth < u.depth)
    (hn : ∀ j, ¬u.Binds name u.depth j) (kind : SymbolKind) (type : Option DataType)
    (value : Option Value) (line : Nat) :
    Shelters touched t (u.insert name kind type value line) where
  wellFormed := hs.wellFormed.insert hn kind type value line
  old id s ht := by
    obtain ⟨type', value', hu, hsame⟩ := hs.old id s ht
    have hlt : id < u.symbols.size := (Array.getElem?_eq_some_iff.1 hu).1
    refine ⟨type', value', ?_, hsame⟩
    rw [get?_insert, if_neg (Nat.ne_of_lt hlt), hu]
  inner id s ht hg hv := by
    rw [get?_insert] at hg
    split at hg
    · obtain rfl := Option.some.inj hg
      exact hd
    · exact hs.inner id s ht hg hv

/-- A change that leaves a symbol where it is brings none out of the scopes inside. -/
theorem inner_modify (hs : Shelters touched t u) {f : Symbol → Symbol} (hf : Keeps f)
    (id j : SymbolId) (s : Symbol) (ht : t.get? j = none) (hg : (u.modify id f).get? j = some s)
    (hv : s.valid) : t.depth < s.scope := by
  rw [get?_modify] at hg
  split at hg
  · obtain ⟨s', hs', rfl⟩ := Option.map_eq_some_iff.1 hg
    obtain ⟨-, hscope, hvalid⟩ := hf s'
    rw [hscope]
    exact hs.inner j s' ht hs' (hvalid ▸ hv)
  · exact hs.inner j s ht hg hv

/-- A symbol made since may change, if it stays where it is. -/
theorem modify_new (hs : Shelters touched t u) (hn : t.get? id = none) {f : Symbol → Symbol}
    (hf : Keeps f) : Shelters touched t (u.modify id f) where
  wellFormed := hs.wellFormed.modify hf id
  old j s ht := by
    have hne : id ≠ j := by
      rintro rfl
      rw [hn] at ht
      cases ht
    rw [get?_modify, if_neg hne]
    exact hs.old j s ht
  inner := hs.inner_modify hf id

/-- A symbol that may be touched gets another type or value. -/
theorem modify_touched (hs : Shelters touched t u) (hi : touched id) {f : Symbol → Symbol}
    (hf : Keeps f) (hr : Retypes f) : Shelters touched t (u.modify id f) where
  wellFormed := hs.wellFormed.modify hf id
  old j s ht := by
    obtain ⟨type, value, hu, hsame⟩ := hs.old j s ht
    rw [get?_modify]
    split
    · next he =>
      subst he
      obtain ⟨type', value', hr⟩ := hr { s with type, value }
      refine ⟨type', value', ?_, fun hno => absurd hi hno⟩
      rw [hu, Option.map_some, hr]
    · exact ⟨type, value, hu, hsame⟩
  inner := hs.inner_modify hf id

theorem resolve (hs : Shelters touched t u) (hd : t.depth < u.depth) (name : String)
    (line : Nat) : Shelters touched t (u.resolve name line).2 := by
  cases hl : u.lookup? name with
  | some id => rwa [resolve_of_lookup? line hl]
  | none =>
    rw [resolve_of_not_lookup? line hl]
    exact hs.insert hd (fun j => (lookup?_eq_none_iff hs.wellFormed).1 hl _ j) _ _ _ _

theorem declare (hs : Shelters touched t u) (h : t.WellFormed) (hd : t.depth < u.depth)
    (name : String) (kind : SymbolKind) (type : DataType) (value : Option Value) (line : Nat) :
    Shelters touched t (u.declare name kind type value line).2 := by
  have hf := keeps_declaring kind type value line
  by_cases hb : ∃ id, u.Binds name u.depth id
  · obtain ⟨id, hb⟩ := hb
    rw [declare_of_binds kind type value line hs.wellFormed hb]
    split
    · exact hs
    · exact hs.modify_new (hs.get?_eq_none_of_binds h hd hb) hf
  · have hn := not_exists.1 hb
    cases hl : u.lookup? name with
    | some hidden =>
      rw [declare_of_hidden kind type value line hs.wellFormed hn hl]
      exact hs.insert hd hn _ _ _ _
    | none =>
      rw [declare_of_not_lookup? kind type value line hl]
      have hi := hs.insert hd hn .identifier none none line
      have hnew := (binds_insert u name .identifier none none line name u.depth u.symbols.size).2
        (.inr ⟨rfl, rfl, rfl⟩)
      exact hi.modify_new (hi.get?_eq_none_of_binds h hd hnew) hf

/-- The end of a scope inside leaves the symbols of the scopes around it. -/
theorem closeScope (hs : Shelters touched t u) (h : t.WellFormed) (hd : t.depth < u.depth) :
    Shelters touched t u.closeScope := by
  have hpos : 0 < u.depth := by omega
  have hg := get?_closeScope hs.wellFormed hpos
  refine ⟨hs.wellFormed.closeScope, fun id s ht => ?_, fun id s ht hu hv => ?_⟩
  · obtain ⟨type, value, hu, hsame⟩ := hs.old id s ht
    refine ⟨type, value, ?_, hsame⟩
    rw [hg, hu, Option.map_some, ite_eq_right_iff.2]
    intro hscope
    -- a symbol of `t` with that number of scopes around it was invalid before
    have hv : s.valid = false := by
      by_contra hv
      rw [Bool.not_eq_false] at hv
      have hle : s.scope ≤ t.depth := h.scope_le ⟨s, ht, hv, rfl, rfl⟩
      have hscope : s.scope = u.depth := hscope
      omega
    simp [retired, hv]
  · rw [hg] at hu
    obtain ⟨s', hs', rfl⟩ := Option.map_eq_some_iff.1 hu
    split at hv
    · cases hv
    · next hne =>
      rw [if_neg hne]
      exact hs.inner id s' ht hs' hv

theorem perform (hs : Shelters touched t u) (h : t.WellFormed) (hd : t.depth < u.depth)
    {op : TableOp} (ht : ∀ id, op.target? = some id → touched id) :
    Shelters touched t (u.perform op).2 := by
  cases op with
  | openScope => exact ⟨hs.wellFormed.openScope, hs.old, hs.inner⟩
  | closeScope => exact hs.closeScope h hd
  | declare name kind type value line => exact hs.declare h hd name kind type value line
  | resolve name line => exact hs.resolve hd name line
  | lookup name => exact hs
  | typeSymbol id type value =>
    exact hs.modify_touched (ht id rfl) (keeps_declared type value) (retypes_declared type value)
  | assign id value =>
    exact hs.modify_touched (ht id rfl) (keeps_assigned value) (retypes_assigned value)

end Shelters

theorem depth_perform (t : SymbolTable) {op : TableOp} (ho : op ≠ .openScope)
    (hc : op ≠ .closeScope) : (t.perform op).2.depth = t.depth := by
  cases op with
  | openScope => contradiction
  | closeScope => contradiction
  | declare name kind type value line => exact depth_declare kind type value line t name
  | resolve name line => exact depth_resolve line t name
  | lookup | typeSymbol | assign => rfl

/-- Balanced calls end in the scope that they begin in. -/
theorem depth_performed {ops : List TableOp} (hb : TableOp.Balanced ops) (t : SymbolTable) :
    (t.performed ops).depth = t.depth := by
  induction hb generalizing t with
  | nil => rfl
  | cons ho hc _ ih => rw [performed_cons, ih, depth_perform t ho hc]
  | @scope ops more _ _ ih ih' =>
    have hin : (t.openScope.performed ops).depth = t.depth + 1 := ih t.openScope
    have hpos : 0 < (t.openScope.performed ops).depth := by omega
    calc
      _ = ((t.openScope.performed ops).closeScope.performed more).depth :=
        congrArg depth (performed_append t.openScope ops (.closeScope :: more))
      _ = (t.openScope.performed ops).closeScope.depth := ih' _
      _ = t.depth := by rw [depth_closeScope hpos, hin, Nat.add_sub_cancel]

/-- Balanced calls inside a scope leave the symbols around it. -/
theorem Shelters.performAll {ops : List TableOp} (hb : TableOp.Balanced ops)
    (hs : Shelters touched t u) (h : t.WellFormed) (hd : t.depth < u.depth)
    (ht : ∀ op ∈ ops, ∀ id, op.target? = some id → touched id) :
    Shelters touched t (u.performed ops) := by
  induction hb generalizing u with
  | nil => exact hs
  | @cons op ops ho hc _ ih =>
    have hop := hs.perform h hd (ht op List.mem_cons_self)
    refine ih hop ?_ fun op' hmem => ht op' (List.mem_cons_of_mem _ hmem)
    rwa [depth_perform u ho hc]
  | @scope ops more hops _ ih ih' =>
    have hdepth : (u.openScope.performed ops).depth = u.depth + 1 :=
      depth_performed hops u.openScope
    have hpos : 0 < (u.openScope.performed ops).depth := by omega
    have hopen : Shelters touched t u.openScope := ⟨hs.wellFormed.openScope, hs.old, hs.inner⟩
    have hin : Shelters touched t (u.openScope.performed ops) :=
      ih hopen (Nat.lt_succ_of_lt hd) fun op hmem => ht op (by simp [hmem])
    have hclose := hin.closeScope h (by omega)
    have hmore : Shelters touched t ((u.openScope.performed ops).closeScope.performed more) := by
      refine ih' hclose ?_ fun op hmem => ht op (by simp [hmem])
      rw [depth_closeScope hpos]
      omega
    have hcalls : u.performed (.openScope :: ops ++ .closeScope :: more) =
        (u.openScope.performed ops).closeScope.performed more :=
      performed_append u.openScope ops (.closeScope :: more)
    rwa [hcalls]

/-- Once the scope has ended, the symbols made in it are invalid. -/
theorem Shelters.valid_eq_false (hs : Shelters touched t u) (hd : u.depth = t.depth) {s : Symbol}
    (ht : t.get? id = none) (hu : u.get? id = some s) : s.valid = false := by
  by_contra hv
  rw [Bool.not_eq_false] at hv
  have hle : s.scope ≤ u.depth := hs.wellFormed.scope_le ⟨s, hu, hv, rfl, rfl⟩
  have hlt := hs.inner id s ht hu hv
  omega

/-- Once the scope has ended, the bindings are those around it. -/
theorem Shelters.binds_iff (hs : Shelters touched t u) (hd : u.depth = t.depth) (n : String)
    (d : Nat) (j : SymbolId) : u.Binds n d j ↔ t.Binds n d j := by
  cases ht : t.get? j with
  | none =>
    refine iff_of_false ?_ ?_
    · rintro ⟨s, hu, hv, -⟩
      exact Bool.false_ne_true ((hs.valid_eq_false hd ht hu).symm.trans hv)
    · rintro ⟨s, hs, -⟩
      rw [ht] at hs
      cases hs
  | some s =>
    obtain ⟨type, value, hu, -⟩ := hs.old j s ht
    simp [Binds, ht, hu]

/-- A scope is opened in a table that was reached from the empty one, any balanced calls are made,
and the scope is closed. Then the table is in the scope it was in, every name stands for what it
stood for, every symbol there was is as it was, but for the type and the value of one that a call
named by its number, and every symbol made since is invalid. -/
theorem balanced_scope_restores (before : List TableOp) {ops : List TableOp}
    (hb : TableOp.Balanced ops) :
    let t := (empty.performAll before).2
    let u := (t.performAll (.openScope :: ops ++ [.closeScope])).2
    u.depth = t.depth ∧ (∀ name, u.lookup? name = t.lookup? name) ∧
      (∀ id s, t.get? id = some s → ∃ type value, u.get? id = some { s with type, value } ∧
        ((∀ op ∈ ops, op.target? ≠ some id) → type = s.type ∧ value = s.value)) ∧
      ∀ id s, t.symbols.size ≤ id → u.get? id = some s → s.valid = false := by
  intro t u
  have ht : t.WellFormed := wellFormed_empty.performAll before
  have hin : Shelters (fun id => ∃ op ∈ ops, op.target? = some id) t (t.openScope.performed ops) :=
    (Shelters.openScope ht).performAll hb ht (Nat.lt_succ_self _) fun op hmem id hop =>
      ⟨op, hmem, hop⟩
  have hdepth : (t.openScope.performed ops).depth = t.depth + 1 := depth_performed hb t.openScope
  have hu : u = (t.openScope.performed ops).closeScope :=
    performed_append t.openScope ops [.closeScope]
  have hd : u.depth = t.depth := by
    rw [hu, depth_closeScope (by omega), hdepth, Nat.add_sub_cancel]
  have hs : Shelters (fun id => ∃ op ∈ ops, op.target? = some id) t u :=
    hu ▸ hin.closeScope ht (by omega)
  refine ⟨hd, fun name => lookup?_congr ht hs.wellFormed (hs.binds_iff hd) name,
    fun id s hid => ?_, fun id s hid hg => ?_⟩
  · obtain ⟨type, value, hg, hsame⟩ := hs.old id s hid
    refine ⟨type, value, hg, fun hno => hsame ?_⟩
    rintro ⟨op, hmem, hop⟩
    exact hno op hmem hop
  · exact hs.valid_eq_false hd (Array.getElem?_eq_none hid) hg

/-- The calls of a block that hides `x`, uses a name in a block inside it, and stores in the first
symbol by its number. -/
def hidingBlock : List TableOp :=
  [.declare "x" .identifier .char none 2, .openScope, .resolve "y" 3, .closeScope,
    .assign 0 (some (.int 5))]

theorem balanced_hidingBlock : TableOp.Balanced hidingBlock :=
  .cons (by simp) (by simp) (@TableOp.Balanced.scope [.resolve "y" 3] [.assign 0 (some (.int 5))]
    (.cons (by simp) (by simp) .nil) (.cons (by simp) (by simp) .nil))

/-- Behind the block `x` is the outer symbol again and `y` is unknown. -/
theorem hidingBlock_restores : TableOp.Balanced hidingBlock ∧ ∃ t u,
    t = (empty.performAll [.declare "x" .identifier .int none 1]).2 ∧
      u = (t.performAll (.openScope :: hidingBlock ++ [.closeScope])).2 ∧
      u.depth = 0 ∧ u.lookup? "x" = some 0 ∧ u.lookup? "y" = none ∧
      (∃ type value, u.get? 0 = some ⟨"x", .identifier, type, 0, 1, value, true⟩) ∧
      ∀ id s, 1 ≤ id → u.get? id = some s → s.valid = false := by
  refine ⟨balanced_hidingBlock, _, _, rfl, rfl, ?_⟩
  have hdepth : (empty.performAll [.declare "x" .identifier .int none 1]).2.depth = 0 := by cbv
  have hx : (empty.performAll [.declare "x" .identifier .int none 1]).2.lookup? "x" = some 0 := by
    cbv
  have hy : (empty.performAll [.declare "x" .identifier .int none 1]).2.lookup? "y" = none := by
    cbv
  have h0 : (empty.performAll [.declare "x" .identifier .int none 1]).2.get? 0 =
      some ⟨"x", .identifier, some .int, 0, 1, none, true⟩ := by cbv
  have hsize : (empty.performAll [.declare "x" .identifier .int none 1]).2.symbols.size = 1 := by
    cbv
  obtain ⟨hd, hl, hold, hnew⟩ :=
    balanced_scope_restores [.declare "x" .identifier .int none 1] balanced_hidingBlock
  refine ⟨hd.trans hdepth, (hl "x").trans hx, (hl "y").trans hy, ?_, fun id s hid => ?_⟩
  · obtain ⟨type, value, hg, -⟩ := hold 0 _ h0
    exact ⟨type, value, hg⟩
  · exact hnew id s (Nat.le_trans (Nat.le_of_eq hsize) hid)

end SymbolTable

end MiniC
