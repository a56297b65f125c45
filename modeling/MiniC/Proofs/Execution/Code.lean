import MiniC.Proofs.Clean
import MiniC.Proofs.Execution.Expression

/-!
# The analysis of straight-line code knows the machine that runs it

Beside code that runs from one machine to another, the analysis goes from a table that knows the
one to a table that knows the other (`Code.follows_of_run?`), as long as it reports no error : then
every declaration makes a symbol, which stands for the new variable (`Analyzer.declare_of_isClean`).
-/

namespace MiniC

open SymbolTable

namespace Analyzer

variable {a b c : Analyzer} {m : Machine} {events : List Event} {event : Event} {loc : Location}

/-- The analysis goes on to a state that knows the machine, in the same scope. -/
structure Follows (a : Analyzer) (m : Machine) (b : Analyzer) : Prop where
  knows : b.symbols.Knows m
  grows : a.symbols.Grows b.symbols

theorem Follows.refl (hk : a.symbols.Knows m) : a.Follows m a := ⟨hk, .refl _⟩

theorem Follows.trans {m' : Machine} (h : a.Follows m b) (h' : b.Follows m' c) : a.Follows m' c :=
  ⟨h'.knows, h.grows.trans h'.grows⟩

/-- Only the symbols matter. -/
theorem Follows.of_eq (h : a.Follows m b) (hs : c.symbols = b.symbols) :
    a.Follows m c := ⟨hs ▸ h.knows, hs ▸ h.grows⟩

theorem symbols_comma (h : a.apply ⟨.comma, loc⟩ = .ok b) :
    b.symbols = a.symbols ∧ b.declType = a.declType := by
  simp only [apply] at h
  split at h
  · obtain ⟨hy, hs⟩ := yields_node h
    exact ⟨hs, hy.declType⟩
  · cases h

end Analyzer

open Analyzer

variable {a b : Analyzer} {m m' : Machine} {inputs : Nat → Int}

namespace Declarator

/-- The symbols and the declaration that goes on, behind a variable without an initializer. -/
theorem follows_plain {name : String} {loc : Location} {type : DataType} (ht : type.IsInteger)
    (hk : a.symbols.Knows m) (hd : a.declType = some type)
    (h : a.after [⟨.declarator name, loc⟩] = .ok b) (hb : b.IsClean) :
    a.Follows (m.declare inputs name type) b ∧ b.declType = some type := by
  have hdt : a.declaredType = type := by rw [declaredType, hd, Option.getD_some]
  obtain rfl := Except.ok.inj (apply_of_after_singleton h)
  have hc : (a.declare name .identifier type loc.line).2.IsClean := by
    rw [← hdt]
    exact hb
  obtain ⟨declared, u, he, hg, -⟩ := declare_of_isClean hk.wellFormed hk.isTyped hc
  rw [declarator_eq, hdt, he]
  exact ⟨⟨hk.declare ht hg inputs, hg.grows⟩, hd⟩

/-- A variable with an initializer is in scope there, and holds what it comes to behind it. -/
theorem follows_initialized {name : String} {loc : Location} {type : DataType}
    (ht : type.IsInteger) {value : Term .assignment}
    (hs : value.isStraight (name :: m.visible) = true) (hk : a.symbols.Knows m)
    (hd : a.declType = some type) {n : Int} {memory : Memory}
    (hr : value.eval? (m.declare inputs name type).names (m.declare inputs name type).memory =
      some (n, memory))
    (h : a.after (⟨.declTarget name, loc⟩ :: value.events ++ [⟨.initDeclarator name, loc⟩]) = .ok b)
    (hb : b.IsClean) :
    a.Follows ⟨(m.declare inputs name type).names, memory.store m.memory.length n⟩ b ∧
      b.declType = some type := by
  have hdt : a.declaredType = type := by rw [declaredType, hd, Option.getD_some]
  obtain ⟨d, hd', hlast⟩ := exists_of_after_snoc h
  obtain ⟨c, hc, hv⟩ := exists_of_after_cons hd'
  have hclean : c.IsClean := (hb.of_apply hlast).of_after hv
  obtain rfl := Except.ok.inj hc
  have hc : (a.declare name .identifier type loc.line).2.IsClean := by
    rw [← hdt]
    exact hclean
  obtain ⟨declared, u, he, hg, hid, hne⟩ := declare_of_isClean hk.wellFormed hk.isTyped hc
  rw [declTarget_eq, hdt, he] at hv
  have hku := hk.declare ht hg inputs
  obtain ⟨o, ho, ha⟩ := value.reaches_of_eval? (m := m.declare inputs name type) hs hku hr hv
  obtain ⟨hdecl, hsym⟩ := yields_initDeclarator ho.pushes.operands rfl ho.pushes.pending hne hlast
  have hid : declared.id = m.memory.length + 1 := hid.trans hk.size
  have hst : (d.symbols.get? (m.memory.length + 1)).bind Symbol.type = some type := by
    rw [ho.shape.type, ← hk.size]
    change (u.get? a.symbols.symbols.size).bind Symbol.type = some type
    rw [hg.get?, if_pos rfl]
    rfl
  obtain ⟨x, hx, rfl⟩ := ho.knows.exists_variable hst
  rw [hid] at hsym
  refine ⟨⟨?_, ?_⟩, ?_⟩
  · rw [hsym]
    exact ho.knows.assign hx ht (denotes_convert ht ha)
  · rw [hsym]
    exact (hg.grows.trans ho.shape.grows).trans (sameShape_assign ..).grows
  · exact hdecl.trans (ho.pushes.declType.trans hd)

theorem visible_of_run? (d : Declarator) {type : DataType} (hr : d.run? inputs type m = some m') :
    m'.visible = d.name :: m.visible := by
  cases d with
  | plain name loc =>
    obtain rfl := Option.some.inj hr
    rfl
  | initialized name loc equal value =>
    simp only [run?, Option.bind_eq_bind, Option.bind_eq_some_iff, Option.pure_def,
      Option.some.injEq, Prod.exists] at hr
    obtain ⟨n, memory, -, rfl⟩ := hr
    rfl

theorem follows_of_run? (d : Declarator) {type : DataType} (ht : type.IsInteger)
    (hs : d.isStraight m.visible = true) (hk : a.symbols.Knows m) (hd : a.declType = some type)
    (hr : d.run? inputs type m = some m') (h : a.after d.events = .ok b) (hb : b.IsClean) :
    a.Follows m' b ∧ b.declType = some type := by
  cases d with
  | plain name loc =>
    obtain rfl := Option.some.inj hr
    exact follows_plain ht hk hd h hb
  | initialized name loc equal value =>
    simp only [run?, Option.bind_eq_bind, Option.bind_eq_some_iff, Option.pure_def,
      Option.some.injEq, Prod.exists] at hr
    obtain ⟨n, memory, hv, rfl⟩ := hr
    exact follows_initialized ht hs hk hd hv h hb

end Declarator

namespace Declarators

/-- The declarations put their names in scope. -/
theorem visible_of_run? (ds : Declarators) {type : DataType}
    (hr : ds.run? inputs type m = some m') : m'.visible = ds.names ++ m.visible := by
  induction ds generalizing m' with
  | one d => exact d.visible_of_run? hr
  | more ds comma d ih =>
    simp only [run?, Option.bind_eq_bind, Option.bind_eq_some_iff] at hr
    obtain ⟨mid, hds, hr⟩ := hr
    rw [d.visible_of_run? hr, ih hds]
    rfl

theorem follows_of_run? (ds : Declarators) {type : DataType} (ht : type.IsInteger)
    (hs : ds.isStraight m.visible = true) (hk : a.symbols.Knows m) (hd : a.declType = some type)
    (hr : ds.run? inputs type m = some m') (h : a.after ds.events = .ok b) (hb : b.IsClean) :
    a.Follows m' b ∧ b.declType = some type := by
  induction ds generalizing b m' with
  | one d => exact d.follows_of_run? ht hs hk hd hr h hb
  | more ds comma d ih =>
    simp only [isStraight, Bool.and_eq_true] at hs
    simp only [run?, Option.bind_eq_bind, Option.bind_eq_some_iff] at hr
    obtain ⟨mid, hds, hr⟩ := hr
    obtain ⟨e, he, hlast⟩ := exists_of_after_snoc h
    obtain ⟨c, hc, hde⟩ := exists_of_after_append he
    have heclean := hb.of_apply hlast
    obtain ⟨hfirst, hcd⟩ := ih hs.1 hds hc (heclean.of_after hde)
    have hvisible := ds.visible_of_run? hds
    obtain ⟨hsecond, hed⟩ := d.follows_of_run? ht (hvisible ▸ hs.2) hfirst.knows hcd hr hde heclean
    obtain ⟨hsym, hdecl⟩ := symbols_comma hlast
    exact ⟨(hfirst.trans hsecond).of_eq hsym, hdecl.trans hed⟩

end Declarators

theorem Declaration.follows_of_run? (d : Declaration) (ht : d.type.IsInteger)
    (hs : d.declarators.isStraight m.visible = true) (hk : a.symbols.Knows m)
    (hr : d.declarators.run? inputs d.type m = some m') (h : a.after d.events = .ok b)
    (hb : b.IsClean) : a.Follows m' b := by
  obtain ⟨e, he, hlast⟩ := exists_of_after_snoc h
  obtain ⟨c, hc, hde⟩ := exists_of_after_cons he
  obtain rfl := Except.ok.inj hc
  have heclean := hb.of_apply hlast
  obtain rfl := Except.ok.inj hlast
  obtain ⟨hf, -⟩ := d.declarators.follows_of_run? (a := { a with declType := some d.type }) ht hs hk
    rfl hr hde heclean
  exact ⟨hf.knows, hf.grows⟩

/-- A block is analysed in a scope of its own. -/
theorem Analyzer.follows_block (events : List Event) {opening closing : Location}
    (hk : a.symbols.Knows m)
    (h : a.after (⟨.openScope, opening⟩ :: events ++ [⟨.closeScope, closing⟩]) = .ok b)
    (hb : b.IsClean)
    (hin : ∀ c d : Analyzer, c.symbols = a.symbols.openScope → c.after events = .ok d → d.IsClean →
      c.Follows m' d) : a.Follows { m' with names := m.names } b := by
  obtain ⟨d, hd, hlast⟩ := exists_of_after_snoc h
  obtain ⟨c, hc, hcd⟩ := exists_of_after_cons hd
  have hdclean := hb.of_apply hlast
  obtain rfl := Except.ok.inj hc
  obtain rfl := Except.ok.inj hlast
  obtain ⟨hknows, hgrows⟩ := hin _ d rfl hcd hdclean
  exact ⟨hk.closeScope hknows hgrows, hgrows.block hk.wellFormed hknows.wellFormed⟩

theorem Simple.follows_of_run? (s : Simple) (hs : s.isStraight m.visible = true)
    (hk : a.symbols.Knows m) (hr : s.run? m = some m') (h : a.after s.events = .ok b) :
    a.Follows m' b := by
  cases s with
  | empty semicolon =>
    obtain rfl := Option.some.inj hr
    obtain rfl := Except.ok.inj (apply_of_after_singleton h)
    exact (Follows.refl hk).of_eq rfl
  | expression e semicolon =>
    simp only [run?, Option.bind_eq_bind, Option.bind_eq_some_iff, Option.pure_def,
      Option.some.injEq, Prod.exists] at hr
    obtain ⟨n, memory, hv, rfl⟩ := hr
    obtain ⟨o, ho, -⟩ := e.reaches_of_eval? hs hk hv h
    exact ⟨ho.knows, ho.shape.grows⟩

namespace Code

/-- The code puts its names in scope. -/
theorem visible_of_run? {part : Part} (code : Code part) (hr : code.run? inputs m = some m') :
    m'.visible = code.names ++ m.visible := by
  induction code generalizing m m' with
  | returned | ifThen | ifElse | whileLoop | forLoop => cases hr
  | emptyBlock opening closing =>
    obtain rfl := Option.some.inj hr
    rfl
  | block opening items closing ih =>
    obtain ⟨mid, -, hr⟩ := Option.bind_eq_some_iff.1 hr
    obtain rfl := Option.some.inj hr
    rfl
  | simple s =>
    cases s with
    | empty semicolon =>
      obtain rfl := Option.some.inj hr
      rfl
    | expression e semicolon =>
      obtain ⟨⟨n, memory⟩, -, hr⟩ := Option.bind_eq_some_iff.1 hr
      obtain rfl := Option.some.inj hr
      rfl
  | declaration d => exact d.declarators.visible_of_run? hr
  | statement s ih => exact ih hr
  | one item ih => exact ih hr
  | more items item ihs ih =>
    obtain ⟨mid, hitems, hr⟩ := Option.bind_eq_some_iff.1 hr
    rw [ih hr, ihs hitems, names, List.append_assoc]

/-- The analysis of code that runs. -/
theorem follows_of_run? {part : Part} (code : Code part)
    (hs : code.isStraight m.visible = true) (hk : a.symbols.Knows m)
    (hr : code.run? inputs m = some m') (h : a.after code.events = .ok b) (hb : b.IsClean) :
    a.Follows m' b := by
  induction code generalizing a b m m' with
  | returned | ifThen | ifElse | whileLoop | forLoop => cases hr
  | emptyBlock opening closing =>
    obtain rfl := Option.some.inj hr
    refine follows_block [⟨.emptyBlock, closing⟩] hk h hb fun c d hc hd _ => ?_
    obtain rfl := Except.ok.inj (apply_of_after_singleton hd)
    exact (Follows.refl (hc ▸ hk.openScope)).of_eq rfl
  | block opening items closing ih =>
    obtain ⟨mid, hitems, hr⟩ := Option.bind_eq_some_iff.1 hr
    obtain rfl := Option.some.inj hr
    exact follows_block _ hk h hb fun c d hc hd hclean =>
      ih hs (hc ▸ hk.openScope) hitems hd hclean
  | simple s => exact s.follows_of_run? hs hk hr h
  | declaration d =>
    simp only [isStraight, Bool.and_eq_true, decide_eq_true_eq] at hs
    exact d.follows_of_run? hs.1 hs.2 hk hr h hb
  | statement s ih => exact ih hs hk hr h hb
  | one item ih => exact ih hs hk hr h hb
  | more items item ihs ih =>
    simp only [isStraight, Bool.and_eq_true] at hs
    obtain ⟨mid, hitems, hr⟩ := Option.bind_eq_some_iff.1 hr
    obtain ⟨e, he, hlast⟩ := exists_of_after_snoc h
    obtain ⟨c, hc, hce⟩ := exists_of_after_append he
    have heclean := hb.of_apply hlast
    have hfirst := ihs hs.1 hk hitems hc (heclean.of_after hce)
    have hvisible := items.visible_of_run? hitems
    have hsecond := ih (hvisible ▸ hs.2) hfirst.knows hr hce heclean
    exact (hfirst.trans hsecond).of_eq (symbols_node hlast)

end Code

end MiniC
