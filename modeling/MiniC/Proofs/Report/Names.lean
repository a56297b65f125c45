import MiniC.Proofs.Confinement
import MiniC.Proofs.Labels

/-!
# The names in the report

A symbol keeps its name, so what a rule may change among the symbols leaves them the names that they
had, and a symbol that is made has the name that its rule tells (`Analyzer.standsIn_apply`). This name
is that of a token. So every row of a report has a name of the text (`rows_named`), and a name is a
word.
-/

namespace MiniC

namespace SymbolTable

variable {t u : SymbolTable} {ts : TokenList} {name : String} {kind : SymbolKind} {line : Nat}
  {id : SymbolId} {s : Symbol} {more : List Diagnostic}

/-- The name of every symbol is that of a token. -/
def StandsIn (ts : TokenList) (t : SymbolTable) : Prop :=
  ∀ id s, t.get? id = some s → ts.Has (.name s.name)

theorem standsIn_empty (ts : TokenList) : empty.StandsIn ts := each_empty _

namespace StandsIn

/-- A change that leaves the symbols their names. -/
theorem changesOnly {may : SymbolId → Symbol → Symbol → Prop} (h : t.StandsIn ts)
    (hc : t.ChangesOnly may u) (hm : ∀ id s s', may id s s' → s'.name = s.name) : u.StandsIn ts := by
  intro id s' hs'
  rcases hc.get?_or_may hs' with hs | ⟨s, hs, hmay⟩
  · exact h id s' hs
  · exact hm id s s' hmay ▸ h id s hs

theorem sameSymbols (h : t.StandsIn ts) (hc : t.SameSymbols u) : u.StandsIn ts :=
  fun id s hs => h id s (hc id ▸ hs)

theorem updates (h : t.StandsIn ts) (hu : t.Updates id s u) (hs : ts.Has (.name s.name)) :
    u.StandsIn ts := Each.updates h hs hu

theorem declaresOnly (h : t.StandsIn ts) (hc : t.DeclaresOnly name kind line more u)
    (hn : ts.Has (.name name)) : u.StandsIn ts := by
  rcases hc with ⟨-, hs⟩ | ⟨-, ⟨type, hm⟩ | ⟨id, s, type, -, rfl, -, -, -, hu⟩⟩
  · exact h.sameSymbols hs
  · exact h.updates hm hn
  · exact h.updates hu hn

theorem usesOnly (h : t.StandsIn ts) (hc : t.UsesOnly name line more u) (hn : ts.Has (.name name)) :
    u.StandsIn ts := by
  rcases hc with hs | ⟨-, hm⟩
  · exact h.sameSymbols hs
  · exact h.updates hm hn

end StandsIn

end SymbolTable

namespace Analyzer

variable {a b : Analyzer} {event : Event} {events : List Event} {ts : TokenList}

theorem standsIn_apply (hw : a.symbols.WellFormed) (h : a.symbols.StandsIn ts)
    (hb : a.apply event = .ok b) (he : event.rule.StandsIn ts) : b.symbols.StandsIn ts := by
  obtain ⟨more, -, hc⟩ := apply_confines hw hb
  obtain ⟨rule, loc⟩ := event
  cases rule
  case functionDeclarator | parameter | declTarget | declarator => exact h.declaresOnly hc he
  case identifier => exact h.usesOnly hc he
  case closeScope | functionDefinition =>
    refine h.changesOnly hc fun id s s' hs => ?_
    obtain ⟨-, -, rfl⟩ := hs
    rfl
  case assign | initDeclarator =>
    refine h.changesOnly hc fun id s s' hs => ?_
    obtain ⟨-, value, rfl⟩ := hs
    rfl
  all_goals exact h.sameSymbols hc

theorem standsIn_after (hw : a.symbols.WellFormed) (h : a.symbols.StandsIn ts)
    (hb : a.after events = .ok b) (he : ∀ e ∈ events, e.rule.StandsIn ts) :
    b.symbols.StandsIn ts := by
  induction events generalizing a with
  | nil =>
    obtain rfl := Except.ok.inj hb
    exact h
  | cons event events ih =>
    obtain ⟨c, hc, hb⟩ := exists_of_after_cons hb
    obtain ⟨hfirst, hrest⟩ := List.forall_mem_cons.1 he
    exact ih ((apply_touches hc).scopes hw).wellFormed (standsIn_apply hw h hc hfirst) hb hrest

end Analyzer

/-- The name in a row of the report is a name of the text. -/
theorem rows_named {source : String} {row : Report.Row} (h : row ∈ (analyze source).report.rows) :
    ∃ ts, tokenize source = .ok ts ∧ ts.Has (.name row.name) := by
  obtain ⟨last, hl⟩ := exists_after_parse source
  rw [report_of_after hl] at h
  obtain ⟨s, hs, hrow⟩ := List.mem_filterMap.1 h
  obtain ⟨id, hid⟩ := List.mem_iff_getElem?.1 hs
  rw [Array.getElem?_toList] at hid
  unfold parse at hl
  split at hl
  · next ts ht =>
    have hstands := Analyzer.standsIn_after SymbolTable.wellFormed_empty
      (SymbolTable.standsIn_empty ts) hl fun e he => (TokenList.standsIn_of_mem_parse he).1
    exact ⟨ts, ht, (Report.Row.kept_of_ofSymbol? hrow).1 ▸ hstands id s hid⟩
  · obtain rfl := Except.ok.inj hl
    exact (List.not_mem_nil hs).elim

/-- The name in a row is a word. -/
theorem isName_of_mem_rows {source : String} {row : Report.Row}
    (h : row ∈ (analyze source).report.rows) : IsName row.name := by
  obtain ⟨ts, ht, hname⟩ := rows_named h
  have hs : Splits [] source.toList ts := tokensFrom_splits rfl ht
  exact hname.isName hs.spelled

end MiniC
