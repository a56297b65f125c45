import MiniC.Proofs.Grammar.NearestElse
import MiniC.Proofs.Grammar.Program
import MiniC.Proofs.Grammar.Recognition

/-!
# Parsing is deriving

A token list is parsed without an error if and only if it is the text of a derivation from the
grammar. The events of the parse are then those of a derivation in which every else branch belongs
to the nearest conditional statement, and of each such derivation of the text
(`TokenList.parse_iff_derived`).
-/

namespace MiniC

namespace TokenList

/-- The text of a derivation is parsed without an error. -/
theorem failure_eq_none_of_tokens {ts : TokenList} {p : Program} (h : p.tokens = ts.tokens) :
    ts.parse.failure = none := by
  obtain ⟨tokens, stop⟩ := ts
  obtain rfl : p.tokens = tokens := h
  obtain ⟨q, hq, hn⟩ := p.exists_elseNearest
  rw [← hq, q.parse_tokens hn]

/-- The events are those of a derivation with the nearest else. -/
theorem events_eq_of_elseNearest {ts : TokenList} {p : Program} (hn : p.ElseNearest)
    (h : p.tokens = ts.tokens) : ts.parse.events = p.events := by
  obtain ⟨tokens, stop⟩ := ts
  obtain rfl : p.tokens = tokens := h
  rw [p.parse_tokens hn]

/-- A token list is parsed without an error if and only if the grammar derives it, and its events
are the postorder of the derivation in which every else branch belongs to the nearest conditional
statement. -/
theorem parse_iff_derived (ts : TokenList) :
    (ts.parse.failure = none ↔ ∃ p : Program, p.tokens = ts.tokens) ∧
      (ts.parse.failure = none →
        ∃ p : Program, p.ElseNearest ∧ p.tokens = ts.tokens ∧ ts.parse.events = p.events) ∧
      ∀ p : Program, p.ElseNearest → p.tokens = ts.tokens → ts.parse.events = p.events := by
  refine ⟨⟨exists_program, fun ⟨_, h⟩ => failure_eq_none_of_tokens h⟩, fun hf => ?_,
    fun p hn h => events_eq_of_elseNearest hn h⟩
  obtain ⟨p, hp⟩ := exists_program hf
  obtain ⟨q, hq, hn⟩ := p.exists_elseNearest
  exact ⟨q, hn, hq.trans hp, events_eq_of_elseNearest hn (hq.trans hp)⟩

end TokenList

end MiniC
