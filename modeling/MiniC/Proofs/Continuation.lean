import MiniC.Proofs.Grammar.Parsing
import MiniC.Proofs.Outcome
import MiniC.Proofs.Token.Appending
import MiniC.Proofs.Visibility

/-!
# What follows a program does not change it

A program is a text that is parsed without an error. The tokens of a program come first among those
of a longer text, so the longer text starts with the same derivation, and reads its events first
whatever is behind them (`TokenList.events_prefix`). An analysis never takes a diagnostic back, so
those of the program come first too (`history_of_append`).
-/

namespace MiniC

/-- The events of a program come first in every text whose tokens start with those of the
program. -/
theorem TokenList.events_prefix {ts us : TokenList} (hf : ts.parse.failure = none)
    (ht : ts.tokens <+: us.tokens) : ts.parse.events <+: us.parse.events := by
  obtain ⟨q, hq⟩ := ts.exists_program hf
  obtain ⟨p, hpq, hn⟩ := q.exists_elseNearest
  have hp := hpq.trans hq
  rw [TokenList.events_eq_of_elseNearest hn hp]
  obtain ⟨tokens, stop⟩ := us
  obtain ⟨rest, rfl⟩ := ht
  cases p with
  | none => exact List.nil_prefix
  | some xs =>
    have hr : Goal.run [.externals false] ⟨xs.tokens ++ rest, stop⟩ =
        (Goal.run [.externals true] ⟨rest, stop⟩).behind xs.events := xs.run hn
    rw [← hp, parse]
    exact ⟨_, congrArg Run.events hr.symm⟩

/-- Diagnostics stay as they are when more events follow. -/
theorem diagnostics_prefix {source longer : String} (hf : (parse source).failure = none)
    (he : (parse source).events <+: (parse longer).events) :
    (analyze source).diagnostics <+: (analyze longer).diagnostics := by
  obtain ⟨more, hm⟩ := he
  obtain ⟨z, hz⟩ := exists_after_parse longer
  obtain ⟨a, ha, hlast⟩ := Analyzer.exists_of_after_append (hm ▸ hz)
  have hd : (analyze source).diagnostics = a.diagnostics := by
    rw [diagnostics_of_after ha, hf]
    exact List.append_nil _
  rw [hd, diagnostics_of_after hz]
  exact (Analyzer.diagnostics_prefix_of_after hlast).trans (List.prefix_append ..)

/-- A program in front of a line break and any text that can be cut into tokens with it : its events
are the first of the longer text, and its diagnostics the first that are reported there. -/
theorem history_of_append {source more : String} {ts : TokenList}
    (hf : (parse source).failure = none) (ht : tokenize (source ++ "\n" ++ more) = .ok ts) :
    (parse source).events <+: (parse (source ++ "\n" ++ more)).events ∧
      (analyze source).diagnostics <+: (analyze (source ++ "\n" ++ more)).diagnostics := by
  have he : (parse source).events <+: (parse (source ++ "\n" ++ more)).events := by
    cases hs : tokenize source with
    | error e =>
      rw [parse, hs] at hf
      cases hf
    | ok us =>
      have hp : parse source = us.parse := by rw [parse, hs]
      have hlonger : parse (source ++ "\n" ++ more) = ts.parse := by rw [parse, ht]
      have hblank : Lexeme.Delimits ('\n' :: more.toList) := by
        rintro c ⟨⟩
        simp [IsBlank]
      rw [tokenize, String.toList_append, String.toList_append, List.append_assoc] at ht
      rw [hp, hlonger]
      exact TokenList.events_prefix (hp ▸ hf) (tokensFrom_append hblank hs ht)
  exact ⟨he, diagnostics_prefix hf he⟩

/-- Behind the function, which ends in a comment, stands the else branch that its conditional
statement could have had. -/
theorem history_of_function_before_else :
    (parse "int f()\x7bif(x)return;\x7d//").failure = none ∧
      (∃ ts, tokenize ("int f()\x7bif(x)return;\x7d//" ++ "\n" ++ "else int y = 1 / 0;") = .ok ts) ∧
      (parse "int f()\x7bif(x)return;\x7d//").events <+:
        (parse ("int f()\x7bif(x)return;\x7d//" ++ "\n" ++ "else int y = 1 / 0;")).events ∧
      (analyze "int f()\x7bif(x)return;\x7d//").diagnostics <+:
        (analyze ("int f()\x7bif(x)return;\x7d//" ++ "\n" ++ "else int y = 1 / 0;")).diagnostics := by
  have hf : (parse "int f()\x7bif(x)return;\x7d//").failure = none := by cbv
  obtain ⟨ts, ht⟩ : ∃ ts,
      tokenize ("int f()\x7bif(x)return;\x7d//" ++ "\n" ++ "else int y = 1 / 0;") = .ok ts :=
    ⟨_, by cbv⟩
  exact ⟨hf, ⟨ts, ht⟩, history_of_append hf ht⟩

end MiniC
