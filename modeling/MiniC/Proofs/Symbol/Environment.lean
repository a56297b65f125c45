import MiniC.Proofs.Symbol.Operation

/-!
# Symbol tables and lexical environments

An `Environment` is what a scoped name table is usually thought of as : a list of frames that is
never empty, the innermost first, each of which maps names to symbols. Beside the frames it holds
only which of the symbols made so far have a type. Opening a scope pushes an empty frame, closing
one pops a frame unless it is the last, and a name stands for the binding of the first frame that
has one.

A symbol table keeps no frames, but it answers every sequence of calls as the environment does
(`answers_eq_environment`). `Simulates` is the relation that each call keeps : the frame at depth
`d` holds the bindings of scope `d`.
-/

namespace MiniC

/-- The bindings of one scope. -/
abbrev Frame := String → Option SymbolId

/-- Nested scopes as a list of frames, the innermost first. -/
structure Environment where
  top : Frame
  outer : List Frame
  /-- For every symbol made so far, whether it has a type. -/
  typed : List Bool

namespace Environment

/-- The global frame alone, without bindings. -/
def start : Environment := ⟨fun _ => none, [], []⟩

/-- All frames, the innermost first. -/
def frames (e : Environment) : List Frame := e.top :: e.outer

/-- The binding of a name in the first frame that has one. -/
def find? (frames : List Frame) (name : String) : Option SymbolId := frames.findSome? (· name)

/-- Binds a name to a new symbol in the innermost frame. -/
def bind (e : Environment) (name : String) (typed : Bool) : Environment :=
  { e with
    top := fun n => if n = name then some e.typed.length else e.top n
    typed := e.typed ++ [typed] }

/-- Gives a symbol a type. -/
def setTyped (e : Environment) (id : SymbolId) : Environment :=
  { e with typed := e.typed.set id true }

/-- Pushes an empty frame. -/
def openScope (e : Environment) : Environment :=
  { e with top := fun _ => none, outer := e.frames }

/-- Pops the innermost frame, unless only the global one is left. -/
def closeScope (e : Environment) : Environment :=
  match e.outer with
  | [] => e
  | frame :: outer => { e with top := frame, outer }

/-- The innermost binding of a name, or else a new one without a type in the innermost frame. -/
def resolve (e : Environment) (name : String) : Resolution × Environment :=
  match find? e.frames name with
  | some id => (⟨id, (e.top name).isNone, false⟩, e)
  | none => (⟨e.typed.length, false, true⟩, e.bind name false)

/-- Declares a name in the innermost frame. -/
def declare (e : Environment) (name : String) : Declared × Environment :=
  match e.top name with
  | some id =>
    if e.typed[id]? = some true then (.redefinition id, e) else (.fresh id, e.setTyped id)
  | none =>
    match find? e.outer name with
    | some hidden => (.shadowing e.typed.length hidden, e.bind name true)
    | none => (.fresh e.typed.length, e.bind name true)

/-- Makes one call. -/
def perform (e : Environment) : TableOp → Answer × Environment
  | .openScope => (.done, e.openScope)
  | .closeScope => (.done, e.closeScope)
  | .declare name _ _ _ _ =>
    let r := e.declare name
    (.declared r.1, r.2)
  | .resolve name _ =>
    let r := e.resolve name
    (.resolved r.1, r.2)
  | .lookup name => (.found (find? e.frames name), e)
  | .typeSymbol id _ _ => (.typed (e.typed[id]? = some false), e.setTyped id)
  | .assign _ _ => (.done, e)

/-- Makes the calls one after the other. -/
def performAll (e : Environment) : List TableOp → List Answer × Environment
  | [] => ([], e)
  | op :: ops =>
    let r := e.perform op
    let rs := r.2.performAll ops
    (r.1 :: rs.1, rs.2)

end Environment

open SymbolTable
open Environment (find?)

/-- Every frame holds the bindings of its scope, whose number is the number of frames around. -/
def Agrees (t : SymbolTable) : List Frame → Prop
  | [] => True
  | frame :: rest =>
    (∀ name id, frame name = some id ↔ t.Binds name rest.length id) ∧ Agrees t rest

/-- The table and the environment stand for the same scopes. -/
structure Simulates (t : SymbolTable) (e : Environment) : Prop where
  wellFormed : t.WellFormed
  depth : t.depth = e.outer.length
  top : ∀ name id, e.top name = some id ↔ t.Binds name t.depth id
  outer : Agrees t e.outer
  typed : ∀ id, e.typed[id]? = (t.get? id).map Symbol.isTyped

variable {t t' : SymbolTable} {e : Environment} {name : String} {id : SymbolId}

theorem Agrees.congr : ∀ {frames : List Frame},
    (∀ d < frames.length, ∀ n j, t'.Binds n d j ↔ t.Binds n d j) → Agrees t frames →
      Agrees t' frames
  | [], _, _ => trivial
  | _ :: _, hb, h =>
    ⟨fun n j => (h.1 n j).trans (hb _ (Nat.lt_succ_self _) n j).symm,
      Agrees.congr (fun d hd => hb d (Nat.lt_succ_of_lt hd)) h.2⟩

/-- A name without a binding in the frames has none in their scopes. -/
theorem Agrees.find?_eq_none : ∀ {frames : List Frame}, Agrees t frames →
    find? frames name = none → ∀ d < frames.length, ∀ j, ¬t.Binds name d j
  | frame :: rest, h, hf, d, hd, j, hb => by
    cases hn : frame name with
    | some i => simp [find?, hn] at hf
    | none =>
      have ho : find? rest name = none := by simpa [find?, hn] using hf
      rcases Nat.lt_succ_iff_lt_or_eq.1 hd with hd | rfl
      · exact h.2.find?_eq_none ho d hd j hb
      · simp [(h.1 name j).2 hb] at hn

/-- The binding that the frames have for a name is the innermost one of their scopes. -/
theorem Agrees.find?_eq_some : ∀ {frames : List Frame}, Agrees t frames →
    find? frames name = some id → ∃ d < frames.length, t.Binds name d id ∧
      ∀ d' < frames.length, ∀ j, t.Binds name d' j → d' ≤ d
  | frame :: rest, h, hf => by
    cases hn : frame name with
    | some i =>
      obtain rfl : i = id := by simpa [find?, hn] using hf
      exact ⟨rest.length, Nat.lt_succ_self _, (h.1 name i).1 hn,
        fun d' hd _ _ => Nat.le_of_lt_succ hd⟩
    | none =>
      have ho : find? rest name = some id := by simpa [find?, hn] using hf
      obtain ⟨d, hd, hb, hmax⟩ := h.2.find?_eq_some ho
      refine ⟨d, Nat.lt_succ_of_lt hd, hb, fun d' hd' j hj => ?_⟩
      rcases Nat.lt_succ_iff_lt_or_eq.1 hd' with hd' | rfl
      · exact hmax d' hd' j hj
      · simp [(h.1 name j).2 hj] at hn

namespace Simulates

theorem start : Simulates .empty .start where
  wellFormed := wellFormed_empty
  depth := rfl
  top n j := by
    constructor
    · intro h
      simp [Environment.start] at h
    · rintro ⟨s, hs, -⟩
      simp [empty, get?] at hs
  outer := trivial
  typed := by simp [empty, get?, Environment.start]

theorem agrees (h : Simulates t e) : Agrees t e.frames :=
  ⟨h.depth ▸ h.top, h.outer⟩

theorem lt_length (h : Simulates t e) {d : Nat} {j : SymbolId} (hb : t.Binds name d j) :
    d < e.frames.length := by
  have := h.wellFormed.scope_le hb
  rw [h.depth] at this
  exact Nat.lt_succ_of_le this

/-- Table and environment find the same symbol for a name. -/
theorem lookup?_eq (h : Simulates t e) (name : String) :
    t.lookup? name = find? e.frames name := by
  cases hf : find? e.frames name with
  | none =>
    rw [lookup?_eq_none_iff h.wellFormed]
    exact fun d j hb => h.agrees.find?_eq_none hf d (h.lt_length hb) j hb
  | some id =>
    obtain ⟨d, -, hb, hmax⟩ := h.agrees.find?_eq_some hf
    exact (lookup?_eq_some_iff h.wellFormed).2
      ⟨d, hb, fun d' j hj => hmax d' (h.lt_length hj) j hj⟩

/-- Table and environment have made the same number of symbols. -/
theorem size_eq (h : Simulates t e) : t.symbols.size = e.typed.length := by
  have hlt : ∀ i, e.typed.length ≤ i ↔ t.symbols.size ≤ i := fun i => by
    rw [← List.getElem?_eq_none_iff, ← Array.getElem?_eq_none_iff, h.typed, Option.map_eq_none_iff]
    rfl
  exact Nat.le_antisymm ((hlt _).1 (Nat.le_refl _)) ((hlt _).2 (Nat.le_refl _))

theorem not_binds_of_top (h : Simulates t e) (hn : e.top name = none) (j : SymbolId) :
    ¬t.Binds name t.depth j := by
  rw [← h.top, hn]
  exact (Option.some_ne_none j).symm

/-- A binding is inherited when the innermost frame has none of that name. -/
theorem isNone_top (h : Simulates t e) (hl : t.lookup? name = some id) :
    (e.top name).isNone = (t.get? id).any (·.scope < t.depth) := by
  obtain ⟨d, hb, hmax⟩ := (lookup?_eq_some_iff h.wellFormed).1 hl
  have hle := h.wellFormed.scope_le hb
  cases hn : e.top name with
  | some i =>
    obtain rfl : d = t.depth := Nat.le_antisymm hle (hmax _ i ((h.top name i).1 hn))
    obtain ⟨s, hs, -, -, hd⟩ := hb
    simp [hs, hd]
  | none =>
    have hlt : d < t.depth :=
      Nat.lt_of_le_of_ne hle fun he => h.not_binds_of_top hn id (he ▸ hb)
    obtain ⟨s, hs, -, -, rfl⟩ := hb
    simp [hs, hlt]

/-! ## Each call keeps the relation -/

theorem openScope (h : Simulates t e) : Simulates t.openScope e.openScope where
  wellFormed := h.wellFormed.openScope
  depth := congrArg (· + 1) h.depth
  top n j := by
    constructor
    · intro hn
      simp [Environment.openScope] at hn
    · -- the scopes that were open have smaller numbers
      intro hb
      exact absurd (h.wellFormed.scope_le hb) (Nat.not_succ_le_self _)
  outer := Agrees.congr (t := t) (fun _ _ _ _ => Iff.rfl) h.agrees
  typed := h.typed

theorem closeScope (h : Simulates t e) : Simulates t.closeScope e.closeScope := by
  obtain ⟨frame, rest, typed⟩ := e
  cases rest with
  | nil => rwa [closeScope_of_depth_eq_zero h.depth]
  | cons next rest =>
    have hd : t.depth = rest.length + 1 := h.depth
    have hpos : 0 < t.depth := by omega
    have hdc : t.closeScope.depth = rest.length := by
      rw [depth_closeScope hpos, hd]
      rfl
    have hb : ∀ d < rest.length + 1, ∀ n j, t.closeScope.Binds n d j ↔ t.Binds n d j := by
      intro d hlt n j
      rw [binds_closeScope h.wellFormed hpos]
      exact and_iff_left (by omega)
    refine ⟨h.wellFormed.closeScope, hdc, fun n j => ?_, ?_, fun j => ?_⟩
    · rw [hdc, hb _ (Nat.lt_succ_self _)]
      exact h.outer.1 n j
    · exact h.outer.2.congr fun d hlt => hb d (Nat.lt_succ_of_lt hlt)
    · rw [get?_closeScope h.wellFormed hpos, Option.map_map]
      refine (h.typed j).trans ?_
      congr 1
      funext s
      simp only [Function.comp]
      split <;> rfl

/-- A new symbol of a name that the innermost frame does not bind. -/
theorem insert (h : Simulates t e) (hn : e.top name = none) (kind : SymbolKind)
    (type : Option DataType) (value : Option Value) (line : Nat) :
    Simulates (t.insert name kind type value line) (e.bind name type.isSome) := by
  have hb := binds_insert t name kind type value line
  refine ⟨h.wellFormed.insert (h.not_binds_of_top hn) _ _ _ _, ?_, fun n j => ?_, ?_, fun j => ?_⟩
  · rw [depth_insert]
    exact h.depth
  · rw [depth_insert, hb, ← h.top, Environment.bind, h.size_eq]
    dsimp only
    split
    · next he => simp [he, hn, eq_comm]
    · next he => simp [he]
  · refine h.outer.congr fun d hlt n j => ?_
    rw [hb, h.depth]
    exact or_iff_left fun hc => absurd hc.2.1 (Nat.ne_of_lt hlt)
  · rw [get?_insert, Environment.bind, h.size_eq]
    dsimp only
    split
    · next he =>
      rw [he, List.getElem?_concat_length]
      rfl
    · next he =>
      rw [← h.typed, List.getElem?_append]
      split
      · rfl
      · next hlt =>
        rw [List.getElem?_eq_none (Nat.le_of_not_lt hlt), List.getElem?_eq_none]
        exact Nat.sub_pos_of_lt (Nat.lt_of_le_of_ne (Nat.le_of_not_lt hlt) (Ne.symm he))

/-- A change to a symbol, beside one to what the environment holds of types. -/
theorem modify_of_typed (h : Simulates t e) {f : Symbol → Symbol} (hf : Keeps f) {id : SymbolId}
    {typed : List Bool} (ht : ∀ j, typed[j]? = ((t.modify id f).get? j).map Symbol.isTyped) :
    Simulates (t.modify id f) { e with typed } := by
  refine ⟨h.wellFormed.modify hf id, h.depth, fun n j => ?_,
    h.outer.congr fun _ _ _ _ => binds_modify f hf, ht⟩
  rw [binds_modify f hf]
  exact h.top n j

/-- A change to a symbol that does not touch its type. -/
theorem modify (h : Simulates t e) {f : Symbol → Symbol} (hf : Keeps f)
    (ht : ∀ s, (f s).isTyped = s.isTyped) (id : SymbolId) : Simulates (t.modify id f) e := by
  refine h.modify_of_typed hf fun j => ?_
  rw [h.typed, get?_modify]
  split
  · cases t.get? j <;> simp [ht]
  · rfl

/-- A change that gives a symbol a type. -/
theorem modify_setTyped (h : Simulates t e) {f : Symbol → Symbol} (hf : Keeps f)
    (ht : ∀ s, (f s).isTyped) (id : SymbolId) : Simulates (t.modify id f) (e.setTyped id) := by
  refine h.modify_of_typed hf fun j => ?_
  rw [List.getElem?_set', get?_modify, h.typed]
  split
  · cases t.get? j <;> simp [ht]
  · rfl

theorem resolve (h : Simulates t e) (name : String) (line : Nat) :
    (t.resolve name line).1 = (e.resolve name).1 ∧
      Simulates (t.resolve name line).2 (e.resolve name).2 := by
  unfold Environment.resolve
  rw [← h.lookup?_eq]
  cases hl : t.lookup? name with
  | some id =>
    rw [resolve_of_lookup? line hl, h.isNone_top hl]
    exact ⟨rfl, h⟩
  | none =>
    rw [resolve_of_not_lookup? line hl, ← h.size_eq]
    refine ⟨rfl, h.insert ?_ _ none _ _⟩
    rw [Option.eq_none_iff_forall_ne_some]
    exact fun j hj => (lookup?_eq_none_iff h.wellFormed).1 hl _ j ((h.top name j).1 hj)

theorem declare (h : Simulates t e) (name : String) (kind : SymbolKind) (type : DataType)
    (value : Option Value) (line : Nat) :
    (t.declare name kind type value line).1 = (e.declare name).1 ∧
      Simulates (t.declare name kind type value line).2 (e.declare name).2 := by
  have htyped := isTyped_declaring kind type value line
  unfold Environment.declare
  cases hn : e.top name with
  | some id =>
    rw [declare_of_binds kind type value line h.wellFormed ((h.top name id).1 hn)]
    dsimp only
    have hc : (t.get? id).any Symbol.isTyped = true ↔ e.typed[id]? = some true := by
      rw [h.typed]
      cases t.get? id <;> simp
    simp only [hc]
    split
    · exact ⟨rfl, h⟩
    · exact ⟨rfl, h.modify_setTyped (keeps_declaring kind type value line) htyped id⟩
  | none =>
    have hf : find? e.outer name = t.lookup? name := by
      rw [h.lookup?_eq, Environment.frames, find?, find?, List.findSome?_cons, hn]
    dsimp only
    rw [hf]
    cases hl : t.lookup? name with
    | some id =>
      rw [declare_of_hidden kind type value line h.wellFormed (h.not_binds_of_top hn) hl,
        ← h.size_eq]
      exact ⟨rfl, h.insert hn _ (some type) _ _⟩
    | none =>
      rw [declare_of_not_lookup? kind type value line hl, ← h.size_eq]
      have hs := (h.insert hn .identifier none none line).modify_setTyped
        (keeps_declaring kind type value line) htyped t.symbols.size
      have he : (e.bind name false).setTyped t.symbols.size = e.bind name true := by
        simp [Environment.setTyped, Environment.bind, h.size_eq, List.set_append_right]
      exact ⟨rfl, he ▸ hs⟩

theorem perform (h : Simulates t e) (op : TableOp) :
    (t.perform op).1 = (e.perform op).1 ∧ Simulates (t.perform op).2 (e.perform op).2 := by
  cases op with
  | openScope => exact ⟨rfl, h.openScope⟩
  | closeScope => exact ⟨rfl, h.closeScope⟩
  | declare name kind type value line =>
    obtain ⟨ha, hs⟩ := h.declare name kind type value line
    exact ⟨congrArg Answer.declared ha, hs⟩
  | resolve name line =>
    obtain ⟨ha, hs⟩ := h.resolve name line
    exact ⟨congrArg Answer.resolved ha, hs⟩
  | lookup name => exact ⟨congrArg Answer.found (h.lookup?_eq name), h⟩
  | typeSymbol id type value =>
    refine ⟨congrArg Answer.typed ?_,
      h.modify_setTyped (keeps_declared type value) (isTyped_declared type value) id⟩
    rw [typeSymbol, h.typed]
    cases t.get? id <;> simp
  | assign id value =>
    exact ⟨rfl, h.modify (keeps_assigned value) (isTyped_assigned value) id⟩

theorem performAll : ∀ {t : SymbolTable} {e : Environment} (ops : List TableOp), Simulates t e →
    (t.performAll ops).1 = (e.performAll ops).1 ∧
      Simulates (t.performAll ops).2 (e.performAll ops).2
  | _, _, [], h => ⟨rfl, h⟩
  | _, _, op :: ops, h => by
    obtain ⟨ha, hs⟩ := h.perform op
    obtain ⟨has, hss⟩ := performAll ops hs
    exact ⟨congrArg₂ List.cons ha has, hss⟩

end Simulates

/-- A symbol table answers every sequence of calls as the lexical environment does, and behind it
has as many scopes open as the environment has frames. -/
theorem answers_eq_environment (ops : List TableOp) :
    (SymbolTable.empty.performAll ops).1 = (Environment.start.performAll ops).1 ∧
      (SymbolTable.empty.performAll ops).2.depth + 1 =
        (Environment.start.performAll ops).2.frames.length :=
  have h := Simulates.start.performAll ops
  ⟨h.1, congrArg (· + 1) h.2.depth⟩

end MiniC
