import Mathlib
import MiniC.Proofs.Clean
import MiniC.Proofs.Context
import MiniC.Proofs.Grammar.Parsing
import MiniC.Proofs.Outcome
import MiniC.Proofs.Report.Entry

/-!
# The report lists the declarations

Behind events without an error every symbol of the table was declared, and the table
`SymbolTable.Lists` the entries of the `Register` in order : an event that declares a name makes one
symbol more, and no other event makes any or changes what a row says of one. `Analyzer.Records` is
that for the whole state, `Analyzer.Records.step` keeps it behind one event, and
`Analyzer.Records.after` behind a list of them.

So the rows of the report are the declarations of the program in the order of the text, without the
functions called `main` (`report_eq_declarations`).
-/

namespace MiniC

/-- What the report says of a symbol that was declared. -/
def Symbol.listed? (s : Symbol) : Option Entry :=
  s.type.map fun type => ⟨s.kind, s.name, type, s.scope, s.line⟩

namespace Report.Row

/-- What the row says, all but the value. -/
def entry (r : Row) : Entry := ⟨r.kind, r.name, r.type, r.scope, r.line⟩

theorem dropLast_cells (r : Row) : r.cells.dropLast = r.entry.cells := rfl

/-- A symbol has a row if it was declared and is no function `main`. -/
theorem entry_ofSymbol? (s : Symbol) :
    (ofSymbol? s).map entry = s.listed?.filter (!·.isMain) := by
  unfold ofSymbol? Symbol.listed?
  cases s.type with
  | none => rfl
  | some type =>
    by_cases hm : s.kind = .function ∧ s.name = "main"
    · simp [hm, Entry.isMain, Option.filter]
    · simp [hm, Entry.isMain, Option.filter, entry]

end Report.Row

/-! ## The symbols of a table -/

namespace SymbolTable

variable {t u : SymbolTable} {entries : List Entry} {id : SymbolId} {s : Symbol}

/-- Every symbol was declared, and the entries say what each of them is, in order. -/
def Lists (t : SymbolTable) (entries : List Entry) : Prop :=
  ∀ id, (t.get? id).map Symbol.listed? = entries[id]?.map some

theorem lists_empty : empty.Lists [] := fun _ => rfl

namespace Lists

theorem map_symbols (h : t.Lists entries) :
    t.symbols.toList.map Symbol.listed? = entries.map some := by
  refine List.ext_getElem? fun id => ?_
  rw [List.getElem?_map, List.getElem?_map, Array.getElem?_toList]
  exact h id

theorem size (h : t.Lists entries) : t.symbols.size = entries.length := by
  simpa using congrArg List.length h.map_symbols

theorem isTyped (h : t.Lists entries) (hs : t.get? id = some s) : s.isTyped = true := by
  have hid := h id
  rw [hs, Option.map_some, eq_comm, Option.map_eq_some_iff] at hid
  obtain ⟨e, -, he⟩ := hid
  obtain ⟨type, ht, -⟩ := Option.map_eq_some_iff.1 he.symm
  rw [Symbol.isTyped, ht, Option.isSome_some]

/-- A change that the report does not see. -/
theorem of_map (h : t.Lists entries) {f : SymbolId → Symbol → Symbol}
    (hf : ∀ id s, (f id s).listed? = s.listed?) (hu : ∀ id, u.get? id = (t.get? id).map (f id)) :
    u.Lists entries := by
  intro id
  have hid : Symbol.listed? ∘ f id = Symbol.listed? := funext (hf id)
  rw [hu, Option.map_map, hid]
  exact h id

theorem assign (h : t.Lists entries) (id : SymbolId) (value : Option Value) :
    (t.assign id value).Lists entries := by
  refine h.of_map (f := fun j s => if id = j then s.assigned value else s) (fun j s => ?_)
    fun j => ?_
  · split
    · unfold Symbol.assigned
      split <;> rfl
    · rfl
  · rw [SymbolTable.assign, get?_modify]
    split <;> simp

theorem closeScope (h : t.Lists entries) (hw : t.WellFormed) : t.closeScope.Lists entries := by
  rcases Nat.eq_zero_or_pos t.depth with hd | hd
  · rwa [closeScope_of_depth_eq_zero hd]
  · refine h.of_map (fun _ s => ?_) (get?_closeScope hw hd)
    split <;> rfl

theorem gains (h : t.Lists entries) (hg : t.Gains s u) {e : Entry} (he : s.listed? = some e) :
    u.Lists (entries ++ [e]) := by
  intro id
  rw [hg.get?, h.size, List.getElem?_append]
  rcases Nat.lt_trichotomy id entries.length with hlt | rfl | hgt
  · rw [if_neg (Nat.ne_of_lt hlt), if_pos hlt]
    exact h id
  · simp [he]
  · have hid := h id
    rw [List.getElem?_eq_none (Nat.le_of_lt hgt)] at hid
    rw [if_neg (Nat.ne_of_gt hgt), if_neg (Nat.lt_asymm hgt), hid,
      List.getElem?_eq_none (by simp; omega)]

/-- The rows of the report. -/
theorem rows (h : t.Lists entries) :
    t.report.rows.map Report.Row.entry = entries.filter (!·.isMain) := by
  calc t.report.rows.map Report.Row.entry
    _ = t.symbols.toList.filterMap fun s => (Report.Row.ofSymbol? s).map Report.Row.entry :=
      List.map_filterMap ..
    _ = t.symbols.toList.filterMap (Option.filter (!·.isMain) ∘ Symbol.listed?) :=
      List.filterMap_congr fun s _ => Report.Row.entry_ofSymbol? s
    _ = (entries.map some).filterMap (Option.filter (!·.isMain)) := by
      rw [← List.filterMap_map, h.map_symbols]
    _ = entries.filterMap (Option.guard (!·.isMain)) := by
      rw [List.filterMap_map]
      exact List.filterMap_congr fun e _ => Option.filter_some
    _ = entries.filter (!·.isMain) := by rw [List.filterMap_eq_filter]

end Lists

end SymbolTable

/-! ## The declaration that is being read -/

namespace Analyzer

variable {a b : Analyzer} {event : Event} {events : List Event} {line : Nat}

/-- Behind an event the type in front of a declaration is what its rule says. -/
theorem declType_apply (h : a.apply event = .ok b) :
    b.declType = event.rule.typeBehind a.declType := by
  have hkeep := fun hr => (sameContext_apply h hr).declType
  obtain ⟨rule, loc⟩ := event
  cases rule
  case typeSpecifier | functionDeclarator | declaration =>
    obtain rfl := Except.ok.inj h
    rfl
  case declTarget =>
    obtain rfl := Except.ok.inj h
    exact (sameContext_declare ..).declType
  case initDeclarator => exact (sameContext_initDeclarator h).declType
  all_goals exact hkeep rfl

/-! ## What is kept for the report -/

/-- A rule that names nothing keeps the rows of the report. -/
theorem Touches.lists {rule : Rule} {u : SymbolTable} {entries : List Entry}
    (ht : Touches a line rule u) (hr : rule.declares = none) (hn : ∀ name, rule ≠ .identifier name)
    (hw : a.symbols.WellFormed) (hl : a.symbols.Lists entries) : u.Lists entries := by
  cases ht with
  | openScope | idle => exact hl
  | closeScope | functionDefinition => exact hl.closeScope hw
  | functionDeclarator | parameter | declTarget | declarator => cases hr
  | identifier name => exact (hn name rfl).elim
  | assign | initDeclarator => exact hl.assign _ _

/-- The register holds what the state keeps of the declarations so far, and of the one that is being
read. -/
structure Records (a : Analyzer) (r : Register) : Prop where
  wellFormed : a.symbols.WellFormed
  type : a.declType = r.type
  depth : a.symbols.depth = r.depth
  lists : a.symbols.Lists r.entries

theorem records_start : start.Records .start :=
  ⟨SymbolTable.wellFormed_empty, rfl, rfl, SymbolTable.lists_empty⟩

namespace Records

variable {r : Register}

/-- A declaration without an error adds a row. -/
theorem lists_declare (h : a.Records r) {name : String} {kind : SymbolKind} {type : DataType}
    (hc : (a.declare name kind type line).2.IsClean) :
    (a.declare name kind type line).2.symbols.Lists
      (r.entries ++ [⟨kind, name, type, r.depth, line⟩]) := by
  obtain ⟨declared, u, he, hg, -⟩ :=
    declare_of_isClean h.wellFormed h.lists.isTyped hc
  rw [he, ← h.depth]
  exact h.lists.gains hg rfl

theorem lists_apply (h : a.Records r) (hb : a.apply event = .ok b) (hc : b.IsClean) :
    b.symbols.Lists (r.note event).entries := by
  have hdeclared : r.type.getD .int = a.declaredType := by rw [declaredType, h.type]
  have ht := apply_touches hb
  obtain ⟨rule, loc⟩ := event
  cases rule
  case functionDeclarator name typed =>
    obtain rfl := Except.ok.inj hb
    have hr : (a.reportIf (!typed) loc.line .missingType).Records r :=
      ⟨by simpa using h.wellFormed, (sameContext_reportIf ..).declType.trans h.type,
        by simpa using h.depth, by simpa using h.lists⟩
    simp only [Register.note, Rule.listed?, hdeclared]
    exact hr.lists_declare hc
  case parameter name type =>
    obtain rfl := Except.ok.inj hb
    exact h.lists_declare hc
  case declTarget name | declarator name =>
    obtain rfl := Except.ok.inj hb
    simp only [Register.note, Rule.listed?, hdeclared]
    exact h.lists_declare hc
  case identifier name =>
    obtain rfl := Except.ok.inj hb
    have hs : (a.identifier name loc.line).symbols = a.symbols := symbols_identifier_of_isClean hc
    rw [hs]
    simpa using h.lists
  all_goals
    simpa using ht.lists rfl nofun h.wellFormed h.lists

/-- An event without an error is noted. -/
theorem step (h : a.Records r) (hb : a.apply event = .ok b) (hc : b.IsClean) :
    b.Records (r.note event) := by
  have hs := (apply_touches hb).scopes h.wellFormed
  refine ⟨hs.wellFormed, ?_, ?_, h.lists_apply hb hc⟩
  · rw [declType_apply hb, h.type]
    rfl
  · rw [hs.depth, h.depth]
    rfl

theorem after (h : a.Records r) (hb : a.after events = .ok b) (hc : b.IsClean) :
    b.Records (r.noteAll events) := by
  induction events generalizing a r with
  | nil =>
    obtain rfl := Except.ok.inj hb
    exact h
  | cons event events ih =>
    obtain ⟨c, he, hb⟩ := exists_of_after_cons hb
    exact ih (h.step he (hc.of_after hb)) hb

end Records

end Analyzer

/-! ## The report -/

/-- The events of a program are those of its derivation with the nearest else. -/
theorem Program.events_nearest {ts : TokenList} {p : Program} (h : p.tokens = ts.tokens) :
    ts.parse.events = p.nearest.events :=
  TokenList.events_eq_of_elseNearest p.elseNearest_nearest (p.tokens_nearest.trans h)

/-- The report of a source that is analysed without an error has a row for each declaration of the
program, in the order of the text, except for the functions called `main`. The cells of the row but
for the value are those of the declaration. -/
theorem report_eq_declarations {source : String}
    (hc : ∀ d ∈ (analyze source).diagnostics, d.isError = false) :
    ∃ ts, tokenize source = .ok ts ∧ (∃ p : Program, p.tokens = ts.tokens) ∧
      ∀ p : Program, p.tokens = ts.tokens →
        (analyze source).report.rows.map (·.entry) = p.entries.filter (!·.isMain) ∧
        (analyze source).report.rows.map (·.cells.dropLast) =
          (p.entries.filter (!·.isMain)).map (·.cells) := by
  obtain ⟨ts, last, ht, hf, hl, ha⟩ := exists_after_of_no_error hc
  refine ⟨ts, ht, TokenList.exists_program hf, fun p hp => ?_⟩
  have hclean : last.IsClean := by
    rw [ha, Analyzer.diagnostics_finish] at hc
    exact hc
  have hrecords := Analyzer.records_start.after hl hclean
  rw [Program.events_nearest hp, Program.noteAll_events, Program.entries_nearest] at hrecords
  have hrows : (analyze source).report.rows.map (·.entry) = p.entries.filter (!·.isMain) := by
    rw [ha, Analyzer.report_finish]
    exact hrecords.lists.rows
  refine ⟨hrows, ?_⟩
  rw [← hrows, List.map_map]
  rfl

/-- A function without a type and its parameters, one without a name and one that a block hides, and
what the function `main` declares. -/
theorem report_of_hidden_parameter :
    ∃ ts, tokenize "f(int n,char)\x7b\nint i=n;\x7bchar n;\x7d\x7d\nint main()\x7bfloat x;\x7d" =
        .ok ts ∧
      (∃ p : Program, p.tokens = ts.tokens) ∧ ∀ p : Program, p.tokens = ts.tokens →
        p.entries.filter (!·.isMain) =
          [⟨.function, "f", .int, 0, 1⟩, ⟨.param, "n", .int, 1, 1⟩,
            ⟨.identifier, "i", .int, 1, 2⟩, ⟨.identifier, "n", .char, 2, 2⟩,
            ⟨.identifier, "x", .float, 1, 3⟩] := by
  have hd : (analyze
      "f(int n,char)\x7b\nint i=n;\x7bchar n;\x7d\x7d\nint main()\x7bfloat x;\x7d").diagnostics =
        [⟨1, .missingType⟩] := by
    cbv
  have hr : (analyze
      "f(int n,char)\x7b\nint i=n;\x7bchar n;\x7d\x7d\nint main()\x7bfloat x;\x7d").report.rows.map
        (·.entry) =
          [⟨.function, "f", .int, 0, 1⟩, ⟨.param, "n", .int, 1, 1⟩,
            ⟨.identifier, "i", .int, 1, 2⟩, ⟨.identifier, "n", .char, 2, 2⟩,
            ⟨.identifier, "x", .float, 1, 3⟩] := by
    cbv
  obtain ⟨ts, ht, hp, hall⟩ := report_eq_declarations (by rw [hd]; decide)
  exact ⟨ts, ht, hp, fun p hp => (hall p hp).1.symm.trans hr⟩

end MiniC
