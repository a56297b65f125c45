import MiniC.Proofs.Execution.Code
import MiniC.Proofs.Grammar.Parsing
import MiniC.Proofs.Outcome

/-!
# The values that are known at the end are right

A function of straight-line code is analysed without an error. However its parameters and variables
are set at first, if it runs to its end, then every value that the analysis knows is the last number
that its variable held (`known_values_sound`).
-/

namespace MiniC

open SymbolTable Analyzer

variable {a b : Analyzer} {m : Machine} {inputs : Nat → Int}

/-! ## Parameters -/

theorem Parameter.follows_enter (p : Parameter) (hk : a.symbols.Knows m)
    (h : a.after p.events = .ok b) (hb : b.IsClean) : a.Follows (p.enter inputs m) b := by
  obtain ⟨type, loc, _ | ⟨name, place⟩⟩ := p
  · obtain rfl := Except.ok.inj h
    exact .refl hk
  · obtain rfl := Except.ok.inj (apply_of_after_singleton h)
    obtain ⟨declared, u, he, hg, -⟩ := declare_of_isClean hk.wellFormed hk.isTyped hb
    rw [he]
    dsimp only [enter]
    split
    · next hi => exact ⟨hk.declare hi hg inputs, hg.grows⟩
    · exact ⟨hk.hide hg, hg.grows⟩

theorem Parameter.visible_enter (p : Parameter) (m : Machine) :
    (p.enter inputs m).visible = p.scope m.visible := by
  obtain ⟨type, loc, _ | ⟨name, place⟩⟩ := p
  · rfl
  · dsimp only [enter, scope]
    split
    · rfl
    · rw [Machine.hide, Machine.visible, Machine.visible, List.filter_map]
      rfl

theorem ParameterList.follows_enter (ps : ParameterList) (hk : a.symbols.Knows m)
    (h : a.after ps.events = .ok b) (hb : b.IsClean) :
    a.Follows (ps.all.foldl (Parameter.enter inputs) m) b := by
  induction ps generalizing a m with
  | one p => exact p.follows_enter hk h hb
  | more p comma ps ih =>
    obtain ⟨c, hc, hcb⟩ := exists_of_after_append h
    have hfirst : a.Follows (p.enter inputs m) c := p.follows_enter hk hc (hb.of_after hcb)
    exact hfirst.trans (ih hfirst.knows hcb)

namespace Parameters

theorem follows_enter (ps : Parameters) (hk : a.symbols.Knows m) (h : a.after ps.events = .ok b)
    (hb : b.IsClean) : a.Follows (ps.all.foldl (Parameter.enter inputs) m) b := by
  cases ps with
  | empty | void =>
    obtain rfl := Except.ok.inj h
    exact .refl hk
  | list ps => exact ps.follows_enter hk h hb

theorem visible_enter (ps : Parameters) :
    (ps.all.foldl (Parameter.enter inputs) .start).visible = ps.names :=
  (List.foldl_hom Machine.visible fun m p => (p.visible_enter m).symm).symm

end Parameters

/-! ## Functions -/

/-- The table that holds the function alone knows a machine without variables. -/
theorem knows_start {name : String} {type : DataType} {line : Nat} :
    (SymbolTable.empty.declare name .function type none line).2.Knows .start := by
  have hnone : ∀ j, ¬SymbolTable.empty.Binds name 0 j := by
    rintro j ⟨s, hs, -⟩
    simp [SymbolTable.empty, SymbolTable.get?] at hs
  obtain ⟨hg, -⟩ := gains_declare wellFormed_empty hnone .function type none line
  refine ⟨hg.wellFormed, hg.size, fun s hs => ?_, fun _ _ hx => ?_, fun _ _ hn => ?_⟩
  · have hzero : 0 = SymbolTable.empty.symbols.size := rfl
    rw [hg.get?, if_pos hzero] at hs
    obtain rfl := Option.some.inj hs
    exact ⟨rfl, rfl⟩
  · cases hx
  · cases hn

theorem Items.follows_of_run? (items : Items) {closing : Location} {m' : Machine}
    (hs : items.all (·.isStraight m.visible) = true) (hk : a.symbols.Knows m)
    (hr : items.elim (some m) (fun code => code.run? inputs m) = some m')
    (h : a.after (items.events closing) = .ok b) (hb : b.IsClean) : a.Follows m' b := by
  cases items with
  | none =>
    obtain rfl := Option.some.inj hr
    obtain rfl := Except.ok.inj (apply_of_after_singleton h)
    exact (Follows.refl hk).of_eq rfl
  | some code => exact code.follows_of_run? hs hk hr h hb

/-- Straight-line code has no else branch. -/
theorem Code.elseNearest_of_isStraight {part : Part} (code : Code part) {visible : List String}
    (hs : code.isStraight visible = true) : code.ElseNearest := by
  induction code generalizing visible with
  | returned | ifThen | ifElse | whileLoop | forLoop => cases hs
  | emptyBlock | simple | declaration => trivial
  | block _ _ _ ih | statement _ ih | one _ ih => exact ih hs
  | more items item ihs ih =>
    simp only [isStraight, Bool.and_eq_true] at hs
    exact ⟨ihs hs.1, ih hs.2⟩

namespace Definition

/-- The analysis of a function that runs. -/
theorem knows_of_run? (f : Definition) {typed : Bool} (hs : f.isStraight = true)
    (ha : a.symbols = .empty) (hr : f.run? inputs = some m)
    (h : a.after (f.events typed) = .ok b) (hb : b.IsClean) :
    b.symbols.Knows { m with names := [] } := by
  obtain ⟨e, he, hlast⟩ := exists_of_after_snoc h
  obtain ⟨d, hd, hde⟩ := exists_of_after_append he
  obtain ⟨c, hc, hcd⟩ := exists_of_after_cons hd
  have heclean := hb.of_apply hlast
  obtain ⟨type, hsym⟩ : ∃ type, c.symbols =
      (SymbolTable.empty.declare f.name .function type none f.loc.line).2.openScope := by
    obtain rfl := Except.ok.inj hc
    refine ⟨if typed then a.declaredType else .int, ?_⟩
    simp only [functionDeclarator, symbols_declare, symbols_reportIf, ha]
  have hopen : c.symbols.Knows .start := hsym ▸ knows_start.openScope
  have hparams : c.Follows (f.parameters.all.foldl (Parameter.enter inputs) .start) d :=
    f.parameters.follows_enter hopen hcd (heclean.of_after hde)
  have hbody : f.body.all
      (·.isStraight (f.parameters.all.foldl (Parameter.enter inputs) .start).visible) := by
    rwa [f.parameters.visible_enter]
  have hitems := Items.follows_of_run? f.body hbody hparams.knows hr hde heclean
  obtain ⟨e', hn, hb'⟩ := exists_of_bind_ok hlast
  obtain rfl := Except.ok.inj hb'
  dsimp only
  rw [symbols_node hn]
  exact knows_start.closeScope hitems.knows (hsym ▸ (hparams.trans hitems).grows)

theorem elseNearest_program (f : Definition) (type : Option (DataType × Location))
    (hs : f.isStraight = true) : (f.program type).ElseNearest := by
  have hbody : f.body.ElseNearest := by
    cases hb : f.body with
    | none => trivial
    | some code => exact code.elseNearest_of_isStraight (by simpa [isStraight, hb] using hs)
  cases type with
  | none => exact hbody
  | some type => exact hbody

theorem tokens_program_ne_nil (f : Definition) (type : Option (DataType × Location)) :
    (f.program type).tokens ≠ [] := by
  cases type with
  | none => exact List.cons_ne_nil _ _
  | some type => exact List.cons_ne_nil _ _

/-- The analysis of a program that is one function, which runs. -/
theorem knows_of_program (f : Definition) {type : Option (DataType × Location)}
    (hs : f.isStraight = true) (hr : f.run? inputs = some m)
    (h : Analyzer.start.after (f.program type).events = .ok b) (hb : b.IsClean) :
    b.symbols.Knows { m with names := [] } := by
  cases type with
  | none => exact f.knows_of_run? hs rfl hr h hb
  | some type =>
    obtain ⟨c, hc, hcb⟩ := exists_of_after_cons h
    obtain rfl := Except.ok.inj hc
    exact f.knows_of_run? hs rfl hr hcb hb

end Definition

/-- The diagnostics of an analysis whose events can all be applied, with no syntax error behind
them. -/
theorem diagnostics_analyze {source : String} {last : Analyzer}
    (hl : Analyzer.start.after (parse source).events = .ok last)
    (hf : (parse source).failure = none) : (analyze source).diagnostics = last.diagnostics := by
  rw [analyze_eq_finish hl hf]
  exact diagnostics_finish last none

/-- A source is one function of straight-line code, and is analysed without an error. However its
parameters and variables are set at first, if the function runs to its end, then the symbols behind
the first are those of its variables, and every value that a symbol is known to hold at the end is
the last number that its variable held. -/
theorem known_values_sound {source : String} {ts : TokenList} {f : Definition}
    {type : Option (DataType × Location)} (ht : tokenize source = .ok ts)
    (hp : (f.program type).tokens = ts.tokens) (hs : f.isStraight = true)
    (hc : ∀ d ∈ (analyze source).diagnostics, d.isError = false) {inputs : Nat → Int} {m : Machine}
    (hr : f.run? inputs = some m) :
    ∃ last, Analyzer.start.after (parse source).events = .ok last ∧
      last.symbols.symbols.size = m.memory.length + 1 ∧
      ∀ id s v, last.symbols.get? id = some s → s.value = some v →
        ∃ position x, id = position + 1 ∧ m.memory[position]? = some x ∧ s.name = x.name ∧
          s.type = some x.type ∧ v.type = x.type ∧ v.Denotes x.value := by
  have hparse : parse source = ts.parse := by rw [parse, ht]
  have hf : (parse source).failure = none := by
    rw [hparse]
    exact TokenList.failure_eq_none_of_tokens hp
  have he : (parse source).events = (f.program type).events := by
    rw [hparse]
    exact TokenList.events_eq_of_elseNearest (f.elseNearest_program type hs) hp
  obtain ⟨last, hl, -⟩ := TokenList.parse_balanced (hp ▸ f.tokens_program_ne_nil type)
  rw [← hparse] at hl
  have hclean : last.IsClean := by
    rw [diagnostics_analyze hl hf] at hc
    exact hc
  have hk := f.knows_of_program hs hr (he ▸ hl) hclean
  refine ⟨last, hl, hk.size, fun id s v hs hv => ?_⟩
  cases id with
  | zero => simp [(hk.function s hs).2] at hv
  | succ position =>
    obtain ⟨x, hx, ha⟩ := hk.exists_admits hs
    obtain ⟨htype, hd⟩ := ha.value v hv
    exact ⟨position, x, rfl, hx, ha.name, ha.type, htype, hd⟩

/-- The function `int f(int n){char c=300;{int c=n;}n=c+=1;}` from its name on. -/
def shadowing : Definition where
  name := "f"
  loc := ⟨1, 5⟩
  left := ⟨1, 6⟩
  parameters := .list (.one ⟨.int, ⟨1, 7⟩, some ("n", ⟨1, 11⟩)⟩)
  right := ⟨1, 12⟩
  opening := ⟨1, 13⟩
  body := some (.more (.more
    (.one (.declaration ⟨.char, ⟨1, 14⟩, .one (.initialized "c" ⟨1, 19⟩ ⟨1, 20⟩
      (.ofConditional (.alone (.literal (.int 300) ⟨1, 21⟩)))), ⟨1, 24⟩⟩))
    (.statement (.block ⟨1, 25⟩
      (.one (.declaration ⟨.int, ⟨1, 26⟩, .one (.initialized "c" ⟨1, 30⟩ ⟨1, 31⟩
        (.ofConditional (.alone (.identifier "n" ⟨1, 32⟩)))), ⟨1, 33⟩⟩)) ⟨1, 34⟩)))
    (.statement (.simple (.expression (.ofAssignment (.assign (.alone (.identifier "n" ⟨1, 35⟩))
      (p := .equal) rfl ⟨1, 36⟩ (.assign (.alone (.identifier "c" ⟨1, 37⟩)) (p := .plusEqual) rfl
        ⟨1, 38⟩ (.ofConditional (.alone (.literal (.int 1) ⟨1, 40⟩)))))) ⟨1, 41⟩))))
  closing := ⟨1, 42⟩

/-- Of `300` the outer character keeps `44`, and one more goes into the parameter. Nothing is known
of the inner variable, which holds what the parameter held at first. -/
theorem known_values_of_shadowing :
    ∃ last, Analyzer.start.after
        (parse "int f(int n)\x7bchar c=300;\x7bint c=n;\x7dn=c+=1;\x7d").events = .ok last ∧
      last.symbols.symbols.size = 4 ∧
      ∀ id s v, last.symbols.get? id = some s → s.value = some v →
        ∃ position x, id = position + 1 ∧
          [(⟨"n", .int, 45⟩ : Variable), ⟨"c", .char, 45⟩, ⟨"c", .int, 5⟩][position]? = some x ∧
          s.name = x.name ∧ s.type = some x.type ∧ v.type = x.type ∧ v.Denotes x.value := by
  have ht : tokenize "int f(int n)\x7bchar c=300;\x7bint c=n;\x7dn=c+=1;\x7d" =
      .ok ⟨(shadowing.program (some (.int, ⟨1, 1⟩))).tokens, ⟨1, 43⟩⟩ := by cbv
  have hp : (shadowing.program (some (.int, ⟨1, 1⟩))).tokens = _ := rfl
  have hc : (analyze "int f(int n)\x7bchar c=300;\x7bint c=n;\x7dn=c+=1;\x7d").diagnostics =
      [] := by
    cbv
  have hr : shadowing.run? (fun _ => 5) =
      some ⟨[("c", 1), ("n", 0)], [⟨"n", .int, 45⟩, ⟨"c", .char, 45⟩, ⟨"c", .int, 5⟩]⟩ := by cbv
  exact known_values_sound ht hp rfl (by simp [hc]) hr

end MiniC
