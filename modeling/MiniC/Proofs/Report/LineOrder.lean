import MiniC.Proofs.Confinement
import MiniC.Proofs.Grammar.NameOrder
import MiniC.Proofs.Outcome

/-!
# The lines of the report

The rows of a report stand in the order in which their symbols were made. A declaration makes its
symbol, and the line of the row is that of the declaration, so that the lines of the rows do not
decrease from one declaration to the next. A use of a name that is not declared makes a symbol too,
which gets its line from a later declaration in the same scope : it stands where it was used, and
the rows below it can be those of declarations in between.

`SymbolTable.InOrder` says of a table that lines decrease in no other way. What an event may change
among the symbols keeps it (`Analyzer.inOrder_apply`), since events that name something come in the
order of the text. The main statement is `report_line_order` : where a line decreases, the name of
the upper row was used, and reported, no later than on the line of the lower one.
-/

namespace MiniC

namespace SymbolTable

variable {t u : SymbolTable} {used used' : Nat → String → Prop} {bound line : Nat} {name : String}
  {kind : SymbolKind} {id : SymbolId} {s : Symbol}

/-- No line is behind `bound`. Lines do not decrease from a symbol to a later one, unless the name
was `used` on a line that is not behind the line of the later one. A symbol without a type is on the
line of its use. -/
structure InOrder (used : Nat → String → Prop) (bound : Nat) (t : SymbolTable) : Prop where
  le : ∀ id s, t.get? id = some s → s.line ≤ bound
  untyped : ∀ id s, t.get? id = some s → s.type = none → used s.line s.name
  ordered : ∀ i j s s', i < j → t.get? i = some s → t.get? j = some s' →
    s.line ≤ s'.line ∨ ∃ line ≤ s'.line, used line s.name

theorem inOrder_empty : empty.InOrder used bound := by
  have hnone : ∀ id s, empty.get? id ≠ some s := by simp [empty, get?]
  exact ⟨fun id s hs => (hnone id s hs).elim, fun id s hs => (hnone id s hs).elim,
    fun i _ s _ _ hs => (hnone i s hs).elim⟩

namespace InOrder

theorem mono (h : t.InOrder used bound) (hu : ∀ line name, used line name → used' line name) :
    t.InOrder used' bound :=
  ⟨h.le, fun id s hs ht => hu _ _ (h.untyped id s hs ht), fun i j s s' hij hs hs' =>
    (h.ordered i j s s' hij hs hs').imp_right fun ⟨line, hle, hl⟩ => ⟨line, hle, hu _ _ hl⟩⟩

theorem le_trans (h : t.InOrder used bound) (hb : bound ≤ line) : t.InOrder used line :=
  ⟨fun id s hs => Nat.le_trans (h.le id s hs) hb, h.untyped, h.ordered⟩

/-- A change that leaves the symbols their names, their lines and their types. -/
theorem changesOnly {may : SymbolId → Symbol → Symbol → Prop} (h : t.InOrder used bound)
    (hc : t.ChangesOnly may u) (hm : ∀ id s s', may id s s' →
      s'.name = s.name ∧ s'.line = s.line ∧ s'.type = s.type) : u.InOrder used bound := by
  have hold : ∀ id s', u.get? id = some s' → ∃ s, t.get? id = some s ∧
      s'.name = s.name ∧ s'.line = s.line ∧ s'.type = s.type := by
    intro id s' hs'
    rcases hc.get?_or_may hs' with hs | ⟨s, hs, hmay⟩
    · exact ⟨s', hs, rfl, rfl, rfl⟩
    · exact ⟨s, hs, hm id s s' hmay⟩
  refine ⟨fun id s' hs' => ?_, fun id s' hs' ht => ?_, fun i j si sj hij hi hj => ?_⟩
  · obtain ⟨s, hs, -, hl, -⟩ := hold id s' hs'
    exact hl ▸ h.le id s hs
  · obtain ⟨s, hs, hn, hl, htype⟩ := hold id s' hs'
    rw [hn, hl]
    exact h.untyped id s hs (htype ▸ ht)
  · obtain ⟨s, hs, hn, hl, -⟩ := hold i si hi
    obtain ⟨s', hs', -, hl', -⟩ := hold j sj hj
    rw [hn, hl, hl']
    exact h.ordered i j s s' hij hs hs'

theorem sameSymbols (h : t.InOrder used bound) (hc : t.SameSymbols u) : u.InOrder used bound := by
  have hno : t.ChangesOnly (fun _ _ _ => False) u := hc.changesOnly
  exact h.changesOnly hno fun _ _ _ => False.elim

/-- A symbol is made or changed, on a line that no other is behind, and what stands below it is
behind a use of its name. -/
theorem updates (h : t.InOrder used bound) (hu : t.Updates id s u) (hb : bound ≤ s.line)
    (hs : s.type = none → used s.line s.name)
    (hbelow : ∀ j s', id < j → t.get? j = some s' → ∃ line ≤ s'.line, used line s.name) :
    u.InOrder used s.line := by
  refine ⟨fun j s' hj => ?_, fun j s' hj ht => ?_, fun i j si sj hij hi hj => ?_⟩
  · rcases hu.eq_or_get? hj with ⟨-, rfl⟩ | hj
    · exact Nat.le_refl _
    · exact Nat.le_trans (h.le j s' hj) hb
  · rcases hu.eq_or_get? hj with ⟨-, rfl⟩ | hj
    · exact hs ht
    · exact h.untyped j s' hj ht
  · -- the symbol is the upper one, the lower one, both or neither
    rcases hu.eq_or_get? hi with ⟨rfl, rfl⟩ | hi <;> rcases hu.eq_or_get? hj with ⟨rfl, rfl⟩ | hj
    · exact (Nat.lt_irrefl _ hij).elim
    · exact .inr (hbelow j sj hij hj)
    · exact .inl (Nat.le_trans (h.le i si hi) hb)
    · exact h.ordered i j si sj hij hi hj

/-- Nothing stands below a new symbol. -/
theorem makes (h : t.InOrder used bound) (hm : t.Makes s u) (hb : bound ≤ s.line)
    (hs : s.type = none → used s.line s.name) : u.InOrder used s.line :=
  h.updates hm hb hs fun _ _ hlt hj =>
    (Nat.lt_asymm hlt (Array.getElem?_eq_some_iff.1 hj).1).elim

/-- What stands below a symbol that gets its type is behind the use on the line where it was, or
behind an earlier one. -/
theorem types (h : t.InOrder used bound) (ht : t.Types name kind line u) (hb : bound ≤ line) :
    u.InOrder used line := by
  obtain ⟨id, s, type, hs, -, -, -, hn, hu⟩ := ht
  refine h.updates hu hb nofun fun j s' hlt hj => ?_
  rcases h.ordered id j s s' hlt hs hj with hle | hused
  · exact ⟨s.line, hle, h.untyped id s hs hn⟩
  · exact hused

theorem declaresOnly {more : List Diagnostic} (h : t.InOrder used bound)
    (hc : t.DeclaresOnly name kind line more u) (hb : bound ≤ line) : u.InOrder used line := by
  rcases hc with ⟨-, hs⟩ | ⟨-, ⟨type, hm⟩ | ht⟩
  · exact (h.sameSymbols hs).le_trans hb
  · exact h.makes hm hb nofun
  · exact h.types ht hb

theorem usesOnly {more : List Diagnostic} (h : t.InOrder used bound)
    (hc : t.UsesOnly name line more u) (hb : bound ≤ line)
    (hu : ⟨line, .undeclared name⟩ ∈ more → used line name) : u.InOrder used line := by
  rcases hc with hs | ⟨hr, hm⟩
  · exact (h.sameSymbols hs).le_trans hb
  · exact h.makes hm hb fun _ => hu hr

/-- The rows of the report are in the order of their symbols. -/
theorem rows (h : t.InOrder used bound) : t.report.rows.Pairwise fun upper lower =>
    upper.line ≤ lower.line ∨ ∃ line ≤ lower.line, used line upper.name := by
  refine List.pairwise_filterMap.2 (List.pairwise_iff_getElem.2 fun i j hi hj hij => ?_)
  intro upper hupper lower hlower
  obtain ⟨hname, hline⟩ := Report.Row.kept_of_ofSymbol? hupper
  obtain ⟨-, hline'⟩ := Report.Row.kept_of_ofSymbol? hlower
  rw [hline, hname, hline']
  exact h.ordered i j _ _ hij (by simp [get?]) (by simp [get?])

end InOrder

end SymbolTable

namespace Analyzer

variable {a b : Analyzer} {event : Event} {events : List Event} {bound : Nat}

/-- A use of the name on the line was reported. -/
def Undeclared (a : Analyzer) (line : Nat) (name : String) : Prop :=
  ⟨line, .undeclared name⟩ ∈ a.diagnostics

/-- The symbols are in order behind an event if no name before stands behind that of the event. -/
theorem inOrder_apply (hw : a.symbols.WellFormed) (h : a.symbols.InOrder a.Undeclared bound)
    (hb : a.apply event = .ok b) (hl : ∀ loc ∈ event.namePlaces, bound ≤ loc.line) :
    b.symbols.InOrder b.Undeclared (event.namePlaces.head?.elim bound Location.line) := by
  obtain ⟨more, hm, hc⟩ := apply_confines hw hb
  have hmore : ∀ d ∈ more, d ∈ b.diagnostics := fun d hd => hm ▸ List.mem_append_right _ hd
  have hbefore : ∀ line name, a.Undeclared line name → b.Undeclared line name := by
    intro line name hu
    rw [Undeclared, hm]
    exact List.mem_append_left more hu
  replace h := h.mono hbefore
  obtain ⟨rule, loc⟩ := event
  cases rule
  case functionDeclarator | parameter | declTarget | declarator =>
    exact h.declaresOnly hc (hl loc (List.mem_singleton.2 rfl))
  case identifier =>
    exact h.usesOnly hc (hl loc (List.mem_singleton.2 rfl)) (hmore _)
  case closeScope | functionDefinition =>
    refine h.changesOnly hc fun id s s' hs => ?_
    obtain ⟨-, -, rfl⟩ := hs
    exact ⟨rfl, rfl, rfl⟩
  case assign | initDeclarator =>
    refine h.changesOnly hc fun id s s' hs => ?_
    obtain ⟨-, value, rfl⟩ := hs
    exact ⟨rfl, rfl, rfl⟩
  all_goals exact h.sameSymbols hc

/-- The symbols are in order behind events whose names come in the order of their lines. -/
theorem inOrder_after (hw : a.symbols.WellFormed) (h : a.symbols.InOrder a.Undeclared bound)
    (hb : a.after events = .ok b)
    (hle : ∀ loc ∈ events.flatMap Event.namePlaces, bound ≤ loc.line)
    (hl : (events.flatMap Event.namePlaces).Pairwise fun l m => l.line ≤ m.line) :
    ∃ bound, b.symbols.InOrder b.Undeclared bound := by
  induction events generalizing a bound with
  | nil =>
    obtain rfl := Except.ok.inj hb
    exact ⟨bound, h⟩
  | cons event events ih =>
    obtain ⟨c, hc, hb⟩ := exists_of_after_cons hb
    rw [List.flatMap_cons] at hle hl
    obtain ⟨hfirst, hrest⟩ := List.forall_mem_append.1 hle
    obtain ⟨-, hl, hbefore⟩ := List.pairwise_append.1 hl
    refine ih ((apply_touches hc).scopes hw).wellFormed (inOrder_apply hw h hc hfirst) hb ?_ hl
    -- the bound is now the line of the name that was told, if one was
    intro loc hloc
    cases hp : event.namePlaces with
    | nil => exact hrest loc hloc
    | cons place _ => exact hbefore place (hp ▸ List.mem_cons_self) loc hloc

end Analyzer

/-- From one row of the report to a lower one the line does not decrease, unless the name of the
upper row was used before it was declared, which is reported, on a line that is not behind that of
the lower row. -/
theorem report_line_order (source : String) :
    (analyze source).report.rows.Pairwise fun upper lower => upper.line ≤ lower.line ∨
      ∃ line ≤ lower.line, ⟨line, .undeclared upper.name⟩ ∈ (analyze source).diagnostics := by
  obtain ⟨last, hl⟩ := exists_after_parse source
  have hlines : ((parse source).events.flatMap Event.namePlaces).Pairwise
      fun l m => l.line ≤ m.line := (namePlaces_ordered source).imp Location.Precedes.line_le
  have hempty : SymbolTable.empty.InOrder Analyzer.start.Undeclared 0 := SymbolTable.inOrder_empty
  obtain ⟨bound, h⟩ := Analyzer.inOrder_after SymbolTable.wellFormed_empty hempty hl
    (fun _ _ => Nat.zero_le _) hlines
  rw [report_of_after hl, diagnostics_of_after hl]
  exact h.rows.imp fun hr => hr.imp_right fun ⟨line, hle, hu⟩ =>
    ⟨line, hle, List.mem_append_left _ hu⟩

/-- A variable that is used in front of its declaration stands above one that is declared between
the two. -/
theorem line_of_used_variable_decreases : ¬∀ source : String,
    (analyze source).report.rows.Pairwise fun upper lower => upper.line ≤ lower.line := by
  intro h
  have hrows : (analyze "void f()\x7b\nx;\nint y;\nint x;\n\x7d").report.rows.map (·.line) =
      [1, 4, 3] := by
    cbv
  have hlines := List.pairwise_map.2 (h "void f()\x7b\nx;\nint y;\nint x;\n\x7d")
  rw [hrows] at hlines
  exact absurd hlines (by decide)

end MiniC
