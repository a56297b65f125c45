import MiniC.Proofs.Execution.Knowledge
import MiniC.Proofs.Execution.Operand

/-!
# The analysis of an expression knows what the expression comes to

Beside an expression that is evaluated, the analysis leaves one operand, which admits the number
that the expression comes to, and a table that knows the variables behind it
(`Term.reaches_of_eval?`).

A branch of a conditional expression that is not taken is analysed all the same. It assigns to no
variable, so its analysis leaves the symbols alone (`Term.passes_of_isPure`); what it folds to is
never asked for.
-/

namespace MiniC

namespace Analyzer

variable {a b c d e : Analyzer} {o l r condition yes no : Operand} {event : Event}
  {events more : List Event} {loc : Location} {m : Machine}

theorem apply_of_after_singleton (h : a.after [event] = .ok b) : a.apply event = .ok b := by
  obtain ⟨c, hc, hnil⟩ := exists_of_after_cons h
  obtain rfl := Except.ok.inj hnil
  exact hc

/-- The events of two operands, and the one behind them. -/
theorem exists_of_after_operands (h : a.after (events ++ more ++ [event]) = .ok d) :
    ∃ b c, a.after events = .ok b ∧ b.after more = .ok c ∧ c.apply event = .ok d := by
  obtain ⟨c, hc, hlast⟩ := exists_of_after_snoc h
  obtain ⟨b, hb, hc⟩ := exists_of_after_append hc
  exact ⟨b, c, hb, hc, hlast⟩

/-! ## An operator behind its operands -/

theorem Pushes.unary (ho : a.Pushes [o] b) {op : UnaryOp}
    (h : b.apply ⟨.unary op, loc⟩ = .ok c) :
    a.Pushes [.unary op o] c ∧ c.symbols = b.symbols := by
  obtain ⟨hy, hsym⟩ := yields_unary ho.operands h
  exact ⟨ho.yields hy rfl, hsym⟩

theorem Pushes.binary (hl : a.Pushes [l] b) (hr : b.Pushes [r] c) (hli : l.IsInteger)
    (hri : r.IsInteger) {op : BinaryOp} (h : c.apply ⟨.binary op, loc⟩ = .ok d) :
    ∃ o, a.Pushes [o] d ∧ d.symbols = c.symbols ∧ o.IsInteger ∧
      ∀ x y n, l.Admits x → r.Admits y → op.result? x y = some n → o.Admits n := by
  have hboth := hl.trans hr
  obtain ⟨o, hy, hrest⟩ := yields_binary hboth.operands hli hri h
  exact ⟨o, hboth.yields hy rfl, hrest⟩

theorem Pushes.ternary (hc : a.Pushes [condition] b) (hy : b.Pushes [yes] c)
    (hn : c.Pushes [no] d) (h : d.apply ⟨.ternary, loc⟩ = .ok e) :
    a.Pushes [.conditional condition yes no] e ∧ e.symbols = d.symbols := by
  have hall := (hc.trans hy).trans hn
  obtain ⟨ht, hsym⟩ := yields_ternary hall.operands h
  exact ⟨hall.yields ht rfl, hsym⟩

theorem Pushes.comma (hl : a.Pushes [l] b) (hr : b.Pushes [r] c)
    (h : c.apply ⟨.comma, loc⟩ = .ok d) :
    a.Pushes [⟨r.type, r.value, none⟩] d ∧ d.symbols = c.symbols := by
  have hboth := hl.trans hr
  obtain ⟨hy, hsym⟩ := yields_comma hboth.operands h
  exact ⟨hboth.yields hy rfl, hsym⟩

/-! ## What the analysis of an expression leaves -/

/-- The analysis put an integer operand on the stack and left the symbols alone. -/
structure Passes (a : Analyzer) (o : Operand) (b : Analyzer) : Prop where
  pushes : a.Pushes [o] b
  isInteger : o.IsInteger
  symbols : b.symbols = a.symbols

/-- The analysis put an integer operand on the stack. It has the same names as before, and knows the
machine. -/
structure Reaches (a : Analyzer) (m : Machine) (o : Operand) (b : Analyzer) : Prop where
  pushes : a.Pushes [o] b
  isInteger : o.IsInteger
  shape : a.symbols.SameShape b.symbols
  knows : b.symbols.Knows m

/-- The operands of a conditional expression make one, which admits what the branch that is taken
comes to. -/
theorem Reaches.conditional {m' m'' : Machine} {k n : Int}
    (hc : a.Reaches m condition b) (hy : b.Reaches m' yes d) (hn : d.Reaches m'' no e)
    (h : e.apply ⟨.ternary, loc⟩ = .ok c) (hk : condition.Admits k) (hyes : k ≠ 0 → yes.Admits n)
    (hno : k = 0 → no.Admits n) : ∃ o, a.Reaches m'' o c ∧ o.Admits n := by
  obtain ⟨hp, hsym⟩ := hc.pushes.ternary hy.pushes hn.pushes h
  refine ⟨_, ⟨hp, Operand.isInteger_conditional hy.isInteger hn.isInteger, ?_,
    hsym ▸ hn.knows⟩, Operand.admits_conditional hy.isInteger hn.isInteger hk hyes hno⟩
  exact hsym ▸ (hc.shape.trans hy.shape).trans hn.shape

theorem Passes.reaches (h : a.Passes o b) (hk : a.symbols.Knows m) : a.Reaches m o b :=
  ⟨h.pushes, h.isInteger, h.symbols ▸ .refl _, h.symbols ▸ hk⟩

/-- The target of an assignment is a name in scope, and its source is behind it. -/
theorem Passes.assign {memory : Memory} {name : String} {position : Nat} {x : Variable} {y k : Int}
    {op : AssignOp} (hl : a.Passes l b) (hr : b.Reaches { m with memory } r c)
    (hk : a.symbols.Knows m) (hf : m.memory.find? m.names name = some (position, x))
    (hs : l.symbol = some (position + 1)) (h : c.apply ⟨.assign op, loc⟩ = .ok d)
    (hal : l.Admits x.value) (har : r.Admits y) (hres : op.result? x.value y = some k) :
    ∃ o, a.Reaches { m with memory := memory.store position k } o d ∧
      o.Admits (x.type.fit k) := by
  have hboth := hl.pushes.trans hr.pushes
  -- the target has the same type in front of the source and behind it
  obtain ⟨-, hi, s, hget, hadmits⟩ := hk.find? hf
  have hst : (c.symbols.get? (position + 1)).bind Symbol.type = some x.type := by
    rw [hr.shape.type, hl.symbols, hget]
    exact hadmits.type
  obtain ⟨value, hyields, hsym, hvalue⟩ := yields_assign hboth.operands hl.isInteger hr.isInteger
    hs hi hst h
  have hdenotes := hvalue x.value y k hal har hres
  obtain ⟨x', hx', hxt⟩ := hr.knows.exists_variable hst
  refine ⟨_, ⟨hboth.yields hyields rfl, ⟨x.type, rfl, hi⟩, ?_, ?_⟩, fun v hv => (hdenotes v hv).2⟩
  · rw [hsym, ← hl.symbols]
    exact hr.shape.trans (SymbolTable.sameShape_assign ..)
  · rw [hsym]
    exact hr.knows.assign hx' (hxt ▸ hi) (hxt ▸ hdenotes)

end Analyzer

open Analyzer

namespace Term

variable {a b : Analyzer} {m : Machine} {tier : Tier} {n : Int} {memory : Memory}

/-- The events of a name in parentheses are the use of the name. -/
theorem events_of_name? {name : String} : ∀ {tier : Tier} (e : Term tier), e.name? = some name →
    ∃ loc, e.events = [⟨.identifier name, loc⟩]
  | _, identifier _ loc, h => ⟨loc, by rw [events, Option.some.inj h]⟩
  | _, parens _ e _, h | _, ofPrimary e, h | _, ofPostfixed e, h | _, ofBelow e, h
  | _, ofOperands e, h | _, ofConditional e, h | _, ofAssignment e, h => events_of_name? e h

/-- A use of a name in scope. -/
theorem reaches_identifier (hk : a.symbols.Knows m) {name : String} {position : Nat} {x : Variable}
    (hf : m.memory.find? m.names name = some (position, x)) {loc : Location}
    (h : a.after [⟨.identifier name, loc⟩] = .ok b) :
    ∃ o, a.Passes o b ∧ o.Admits x.value ∧ o.symbol = some (position + 1) := by
  obtain ⟨hl, hi, s, hs, ha⟩ := hk.find? hf
  obtain rfl := Except.ok.inj (apply_of_after_singleton h)
  obtain ⟨hy, hsym⟩ := yields_identifier hl hs (hk.isTyped hs) loc.line
  exact ⟨_, ⟨(Pushes.refl a).yields hy rfl, ⟨x.type, ha.type, hi⟩, hsym⟩,
    fun v hv => (ha.value v hv).2, rfl⟩

/-- A branch that is analysed and not taken. -/
theorem passes_of_isPure (e : Term tier) (hs : e.isStraight m.visible = true)
    (hp : e.isPure = true) (hk : a.symbols.Knows m) (h : a.after e.events = .ok b) :
    ∃ o, a.Passes o b := by
  induction e generalizing a b with
  | literal value loc =>
    obtain rfl := Except.ok.inj (apply_of_after_singleton h)
    have ht : value.type.IsInteger := by simpa [isStraight] using hs
    exact ⟨.constant value, ⟨rfl, rfl, rfl⟩, ⟨_, rfl, ht⟩, rfl⟩
  | identifier name loc =>
    obtain ⟨position, x, hf⟩ := hk.exists_find? (by simpa [isStraight] using hs)
    obtain ⟨o, ho, -⟩ := reaches_identifier hk hf h
    exact ⟨o, ho⟩
  | parens _ e _ ih | ofPrimary e ih | ofPostfixed e ih | ofBelow e ih | ofOperands e ih
  | ofConditional e ih | ofAssignment e ih => exact ih hs hp hk h
  | postfixed => cases hs
  | @unary _ op _ loc e ih =>
    simp only [isStraight, Bool.and_eq_true, decide_eq_true_eq] at hs
    obtain ⟨⟨hi, hd⟩, hs⟩ := hs
    obtain ⟨c, hc, hlast⟩ := exists_of_after_snoc h
    obtain ⟨o, ho⟩ := ih hs hp hk hc
    obtain ⟨hpush, hsym⟩ := ho.pushes.unary hlast
    exact ⟨_, hpush, Operand.isInteger_unary ho.isInteger hi hd, hsym.trans ho.symbols⟩
  | @binary _ lhs _ op _ _ loc rhs ihl ihr =>
    simp only [isStraight, isPure, Bool.and_eq_true] at hs hp
    obtain ⟨c, d, hc, hd, hlast⟩ := exists_of_after_operands h
    obtain ⟨l, hl⟩ := ihl hs.1 hp.1 hk hc
    obtain ⟨r, hr⟩ := ihr hs.2 hp.2 (hl.symbols ▸ hk) hd
    obtain ⟨o, hpush, hsym, hi, -⟩ := hl.pushes.binary hr.pushes hl.isInteger hr.isInteger hlast
    exact ⟨o, hpush, hi, hsym.trans (hr.symbols.trans hl.symbols)⟩
  | ternary condition question yes colon no ihc ihy ihn =>
    simp only [isStraight, isPure, Bool.and_eq_true] at hs hp
    obtain ⟨⟨⟨⟨hsc, hsy⟩, hsn⟩, hpy⟩, hpn⟩ := hs
    obtain ⟨d, e, hd, he, hlast⟩ := exists_of_after_operands h
    obtain ⟨c, hc, hd⟩ := exists_of_after_append hd
    obtain ⟨k, hk'⟩ := ihc hsc hp.1.1 hk hc
    obtain ⟨y, hy⟩ := ihy hsy hpy (hk'.symbols ▸ hk) hd
    obtain ⟨n, hn⟩ := ihn hsn hpn (hy.symbols ▸ hk'.symbols ▸ hk) he
    obtain ⟨hpush, hsym⟩ := hk'.pushes.ternary hy.pushes hn.pushes hlast
    exact ⟨_, hpush, Operand.isInteger_conditional hy.isInteger hn.isInteger,
      hsym.trans (hn.symbols.trans (hy.symbols.trans hk'.symbols))⟩
  | assign => cases hp
  | comma first loc second ihf ihs =>
    simp only [isStraight, isPure, Bool.and_eq_true] at hs hp
    obtain ⟨c, d, hc, hd, hlast⟩ := exists_of_after_operands h
    obtain ⟨l, hl⟩ := ihf hs.1 hp.1 hk hc
    obtain ⟨r, hr⟩ := ihs hs.2 hp.2 (hl.symbols ▸ hk) hd
    obtain ⟨hpush, hsym⟩ := hl.pushes.comma hr.pushes hlast
    exact ⟨_, hpush, hr.isInteger, hsym.trans (hr.symbols.trans hl.symbols)⟩

/-- The analysis of an expression that is evaluated. -/
theorem reaches_of_eval? (e : Term tier) (hs : e.isStraight m.visible = true)
    (hk : a.symbols.Knows m) (hr : e.eval? m.names m.memory = some (n, memory))
    (h : a.after e.events = .ok b) :
    ∃ o, a.Reaches { m with memory } o b ∧ o.Admits n := by
  induction e generalizing a b m n memory with
  | literal value loc =>
    simp only [eval?, Option.bind_eq_bind, Option.bind_eq_some_iff, Option.pure_def,
      Option.some.injEq, Prod.mk.injEq] at hr
    obtain ⟨k, hv, rfl, rfl⟩ := hr
    obtain rfl := Except.ok.inj (apply_of_after_singleton h)
    have hd : value.Denotes k := hv
    refine ⟨.constant value, ⟨⟨rfl, rfl, rfl⟩, ⟨_, rfl, hd.type_isInteger⟩, .refl _, hk⟩, ?_⟩
    rintro _ ⟨⟩
    exact hd
  | identifier name loc =>
    simp only [eval?, Option.bind_eq_bind, Option.bind_eq_some_iff, Option.pure_def,
      Option.some.injEq, Prod.mk.injEq, Prod.exists] at hr
    obtain ⟨position, x, hf, rfl, rfl⟩ := hr
    obtain ⟨o, ho, ha, -⟩ := reaches_identifier hk hf h
    exact ⟨o, ho.reaches hk, ha⟩
  | parens _ e _ ih | ofPrimary e ih | ofPostfixed e ih | ofBelow e ih | ofOperands e ih
  | ofConditional e ih | ofAssignment e ih => exact ih hs hk hr h
  | postfixed => cases hs
  | @unary _ op _ loc e ih =>
    simp only [isStraight, Bool.and_eq_true, decide_eq_true_eq] at hs
    simp only [eval?, Option.bind_eq_bind, Option.bind_eq_some_iff, Option.pure_def,
      Option.some.injEq, Prod.mk.injEq, Prod.exists] at hr
    obtain ⟨x, _, hx, _, hn, rfl, rfl⟩ := hr
    obtain ⟨⟨hi, hd⟩, hs⟩ := hs
    obtain ⟨c, hc, hlast⟩ := exists_of_after_snoc h
    obtain ⟨o, ho, ha⟩ := ih hs hk hx hc
    obtain ⟨hpush, hsym⟩ := ho.pushes.unary hlast
    exact ⟨_, ⟨hpush, Operand.isInteger_unary ho.isInteger hi hd, hsym ▸ ho.shape,
      hsym ▸ ho.knows⟩, Operand.admits_unary ha hn⟩
  | @binary _ lhs _ op _ _ loc rhs ihl ihr =>
    simp only [isStraight, Bool.and_eq_true] at hs
    simp only [eval?, Option.bind_eq_bind, Option.bind_eq_some_iff, Option.pure_def,
      Option.some.injEq, Prod.mk.injEq, Prod.exists] at hr
    obtain ⟨x, mid, hx, y, _, hy, _, hn, rfl, rfl⟩ := hr
    obtain ⟨c, d, hc, hd, hlast⟩ := exists_of_after_operands h
    obtain ⟨l, hl, hal⟩ := ihl hs.1 hk hx hc
    obtain ⟨r, hr, har⟩ := ihr (m := ⟨m.names, mid⟩) hs.2 hl.knows hy hd
    obtain ⟨o, hpush, hsym, hi, ha⟩ := hl.pushes.binary hr.pushes hl.isInteger hr.isInteger hlast
    exact ⟨o, ⟨hpush, hi, hsym ▸ hl.shape.trans hr.shape, hsym ▸ hr.knows⟩, ha x y _ hal har hn⟩
  | ternary condition question yes colon no ihc ihy ihn =>
    simp only [isStraight, Bool.and_eq_true] at hs
    obtain ⟨⟨⟨⟨hsc, hsy⟩, hsn⟩, hpy⟩, hpn⟩ := hs
    simp only [eval?, Option.bind_eq_bind, Option.bind_eq_some_iff, Prod.exists] at hr
    obtain ⟨k, mid, hx, hr⟩ := hr
    obtain ⟨d, e, hd, he, hlast⟩ := exists_of_after_operands h
    obtain ⟨c, hc, hd⟩ := exists_of_after_append hd
    obtain ⟨o, ho, ha⟩ := ihc hsc hk hx hc
    split at hr
    · next hzero =>
      obtain ⟨y, hy⟩ := passes_of_isPure (m := ⟨m.names, mid⟩) yes hsy hpy ho.knows hd
      obtain ⟨n, hn, han⟩ := ihn (m := ⟨m.names, mid⟩) hsn (hy.symbols ▸ ho.knows) hr he
      exact ho.conditional (hy.reaches ho.knows) hn hlast ha (fun hne => absurd hzero hne)
        fun _ => han
    · next hne =>
      obtain ⟨y, hy, hay⟩ := ihy (m := ⟨m.names, mid⟩) hsy ho.knows hr hd
      obtain ⟨n, hn⟩ := passes_of_isPure (m := ⟨m.names, memory⟩) no hsn hpn hy.knows he
      exact ho.conditional hy (hn.reaches hy.knows) hlast ha (fun _ => hay)
        fun hzero => absurd hzero hne
  | @assign target _ op _ loc source _ ih =>
    simp only [isStraight, Bool.and_eq_true] at hs
    simp only [eval?, Option.bind_eq_bind, Option.bind_eq_some_iff, Option.pure_def,
      Option.some.injEq, Prod.mk.injEq, Prod.exists] at hr
    obtain ⟨name, hname, position, x, hf, y, _, hy, k, hk', rfl, rfl⟩ := hr
    obtain ⟨c, d, hc, hd, hlast⟩ := exists_of_after_operands h
    obtain ⟨loc', htarget⟩ := events_of_name? target hname
    obtain ⟨l, hl, hal, hsymbol⟩ := reaches_identifier hk hf (htarget ▸ hc)
    obtain ⟨r, hr, har⟩ := ih hs.2 (hl.symbols ▸ hk) hy hd
    exact hl.assign hr hk hf hsymbol hlast hal har hk'
  | comma first loc second ihf ihs =>
    simp only [isStraight, Bool.and_eq_true] at hs
    simp only [eval?, Option.bind_eq_bind, Option.bind_eq_some_iff, Prod.exists] at hr
    obtain ⟨_, mid, hx, hy⟩ := hr
    obtain ⟨c, d, hc, hd, hlast⟩ := exists_of_after_operands h
    obtain ⟨l, hl, -⟩ := ihf hs.1 hk hx hc
    obtain ⟨r, hr, har⟩ := ihs (m := ⟨m.names, mid⟩) hs.2 hl.knows hy hd
    obtain ⟨hpush, hsym⟩ := hl.pushes.comma hr.pushes hlast
    exact ⟨_, ⟨hpush, hr.isInteger, hsym ▸ hl.shape.trans hr.shape, hsym ▸ hr.knows⟩, har⟩

end Term

end MiniC
