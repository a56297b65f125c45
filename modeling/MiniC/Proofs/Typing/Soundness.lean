import MiniC.Proofs.Outcome
import MiniC.Proofs.Typing.Invariant
import MiniC.Proofs.Typing.Specifier

/-!
# The types of operands are sound

Behind the events of a run the state is `Analyzer.Sound`, as long as no undeclared name was reported
and no value of a symbol of type `void` was known (`Analyzer.Sound.after`). A program without the
keyword `void` has no such symbol. So if it is analysed without an error, every operand and every
symbol with a known value has the type of that value, behind every event (`analyze_types_sound`).
-/

namespace MiniC

open SymbolTable

namespace Analyzer

variable {a b : Analyzer} {events more : List Event} {found : List Role}

/-- Every operand and every symbol with a known value has the type of that value. -/
structure TypesSound (a : Analyzer) : Prop where
  operand : ∀ o ∈ a.operands, ∀ v, o.value = some v → o.type = some v.type
  symbol : ∀ id s v, a.symbols.get? id = some s → s.value = some v → s.type = some v.type

theorem Sound.typesSound (h : a.Sound found) : a.TypesSound where
  operand o ho := (h.fills.fits o ho).sound
  symbol id s v hs := (h.table id s hs).value v

/-- Events that find the roles of their rules keep the state sound, and leave those that the events
behind them find. -/
theorem Sound.after (h : a.Sound found) (hb : a.after events = .ok b)
    (hg : (Goal.behind? ((events ++ more).map Event.goal) found).isSome) (hn : ¬b.HasUndeclared)
    (hv : ∀ before c, before <+: events → a.after before = .ok c → c.symbols.VoidUnknown) :
    ∃ roles, b.Sound roles ∧ (Goal.behind? (more.map Event.goal) roles).isSome := by
  induction events generalizing a found with
  | nil =>
    obtain rfl := Except.ok.inj hb
    exact ⟨found, h, hg⟩
  | cons event events ih =>
    obtain ⟨c, hc, hb⟩ := exists_of_after_cons hb
    obtain ⟨left, hl⟩ := Option.isSome_iff_exists.1 hg
    obtain ⟨front, rest, rfl, hf, hl⟩ := Goal.behind?_cons hl
    have hfound : a.Sound (event.rule.consumes ++ rest) := h.of_serve (hf.append rest)
    have hone : ∀ before d, c.after before = .ok d → a.after (event :: before) = .ok d :=
      fun before d hd => (after_cons_of_ok hc before).trans hd
    have hnc : ¬c.HasUndeclared := fun ⟨d, hd, hname⟩ =>
      hn ⟨d, (diagnostics_prefix_of_after hb).subset hd, hname⟩
    have hvc : c.symbols.VoidUnknown :=
      hv [event] c (List.prefix_append [event] events) (hone [] c rfl)
    refine ih (hfound.apply hc hnc hvc) hb (Option.isSome_iff_exists.2 ⟨left, hl⟩)
      fun before d hp hd => ?_
    exact hv _ d (List.cons_prefix_cons.2 ⟨rfl, hp⟩) (hone before d hd)

theorem IsClean.not_hasUndeclared (h : a.IsClean) : ¬a.HasUndeclared := by
  rintro ⟨d, hd, name, hp⟩
  have he := h d hd
  rw [Diagnostic.isError, Diagnostic.severity, hp] at he
  cases he

/-- Where no type specifier and no parameter is `void`, there is no symbol of that type. -/
theorem voidUnknown_of_prefix (h : start.after events = .ok a) (hc : a.IsClean)
    (he : ∀ e ∈ events, ∀ type ∈ e.rule.type?, type ≠ .void) :
    ∀ before c, before <+: events → start.after before = .ok c → c.symbols.VoidUnknown := by
  rintro before c ⟨rest, rfl⟩ hbefore
  obtain ⟨d, hd, hrest⟩ := exists_of_after_append h
  obtain rfl := Except.ok.inj (hbefore.symm.trans hd)
  have hr : (Register.start.noteAll before).TypesIn (· ≠ .void) :=
    Register.TypesIn.noteAll ⟨nofun, nofun⟩ nofun fun e hm => he e (List.mem_append_left rest hm)
  have hrecords := records_start.after hbefore (hc.of_after hrest)
  exact fun _ _ hs ht => (hrecords.type_mem hr hs ht rfl).elim

end Analyzer

/-- In a program without the keyword `void` that is analysed without an error, behind every event,
every operand and every symbol with a known value has the type of that value. -/
theorem analyze_types_sound {source : String}
    (hvoid : ∀ ts, tokenize source = .ok ts → ∀ t ∈ ts.tokens, t.kind ≠ .type .void)
    (hc : ∀ d ∈ (analyze source).diagnostics, d.isError = false) {before : List Event}
    (hb : before <+: (parse source).events) :
    ∃ a, Analyzer.start.after before = .ok a ∧ a.TypesSound := by
  obtain ⟨ts, last, ht, -, hl, ha⟩ := exists_after_of_no_error hc
  have hclean : last.IsClean := by
    rw [ha, Analyzer.diagnostics_finish] at hc
    exact hc
  have hp : parse source = ts.parse := by rw [parse, ht]
  have htypes : ∀ e ∈ ts.parse.events, ∀ type ∈ e.rule.type?, type ≠ .void :=
    TokenList.types_parse fun t htok type hk h => hvoid ts ht t htok (by rw [hk, h])
  obtain ⟨more, he⟩ := hb
  rw [hp] at he
  rw [← he] at hl htypes
  obtain ⟨a, hbefore, hmore⟩ := Analyzer.exists_of_after_append hl
  have hclean := hclean.of_after hmore
  have hv := Analyzer.voidUnknown_of_prefix hbefore hclean fun e hm =>
    htypes e (List.mem_append_left more hm)
  obtain ⟨roles, hs, -⟩ := Analyzer.sound_start.after hbefore (he ▸ ts.parse_orderly)
    hclean.not_hasUndeclared hv
  exact ⟨a, hbefore, hs.typesSound⟩

/-- A character is converted to the type of the conditional expression whose branch it is. -/
theorem types_sound_of_conditional :
    ∃ a, Analyzer.start.after ((parse "int x=1?'b':2;").events.take 6) = .ok a ∧
      a.operands.map Operand.value = [some (.int 98), none] ∧ a.TypesSound := by
  have hvoid : ∀ ts, tokenize "int x=1?'b':2;" = .ok ts → ∀ t ∈ ts.tokens,
      t.kind ≠ .type .void := by
    intro ts ht
    have hall : (tokenize "int x=1?'b':2;").map (·.tokens.all (·.kind ≠ .type .void)) =
        .ok true := by cbv
    rw [ht] at hall
    simpa using Except.ok.inj hall
  have hd : (analyze "int x=1?'b':2;").diagnostics = [] := by cbv
  have ho : (Analyzer.start.after ((parse "int x=1?'b':2;").events.take 6)).map
      (·.operands.map Operand.value) = .ok [some (.int 98), none] := by cbv
  obtain ⟨a, ha, hs⟩ := analyze_types_sound hvoid (by simp [hd]) (List.take_prefix 6 _)
  rw [ha] at ho
  exact ⟨a, ha, Except.ok.inj ho, hs⟩

end MiniC
