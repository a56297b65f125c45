import Mathlib.Logic.ExistsUnique
import MiniC.Proofs.Balance

/-!
# How an analysis ends

An `Ending` is one of three ways in which the analysis of a text can end : the text is rejected with
a syntax error, or it has no tokens and leaves no tree, or it leaves exactly one tree.
`Ending.Describes` says what each of them shows.

Every text has exactly one of them, and no analysis ever asks for a subtree that is not there
(`analyze_ending`). The stacks are `Goal.run_balanced`; what is left is to read the last state.
-/

namespace MiniC

/-- The ways in which the analysis of a text can end. -/
inductive Ending where
  /-- The text is no program. -/
  | rejected (error : SyntaxError)
  /-- The text has no tokens. -/
  | blank
  /-- The text is a program, and `tree` its finished tree. -/
  | complete (tree : Tree)

namespace Ending

/-- What the analysis of `source` shows when it ends this way. -/
def Describes (source : String) : Ending → Prop
  | rejected error =>
    (parse source).failure = some error ∧
      (analyze source).failure = some (.syntaxError error) ∧
      (∃ d, (analyze source).diagnostics.getLast? = some d ∧ d.line = error.location.line ∧
        d.isError ∧ d.message = "syntax error: " ++ error.fault.message) ∧
      (analyze source).exitCode = 1
  | blank =>
    (∃ stop, tokenize source = .ok ⟨[], stop⟩) ∧
      (analyze source).diagnostics = [] ∧ (analyze source).root = none ∧
      (analyze source).failure = some (.stack (.unbalanced 0)) ∧ (analyze source).exitCode = 1
  | complete tree =>
    (∃ ts, tokenize source = .ok ts ∧ ts.tokens ≠ []) ∧ (parse source).failure = none ∧
      (∃ last, Analyzer.start.after (parse source).events = .ok last ∧ last.trees = ⟨[tree]⟩) ∧
      (analyze source).root = some (tree.withLevels 1) ∧ (analyze source).failure = none ∧
      ((analyze source).exitCode = 1 ↔ ∃ d ∈ (analyze source).diagnostics, d.isError)

end Ending

namespace Analyzer

theorem failure_finish (a : Analyzer) (e : SyntaxError) :
    (a.finish (some (.syntaxError e))).failure = some (.syntaxError e) := by
  unfold finish
  split <;> rfl

theorem diagnostics_finish (a : Analyzer) (failure : Option Failure) :
    (a.finish failure).diagnostics = a.diagnostics := by
  unfold finish
  split <;> rfl

theorem report_finish (a : Analyzer) (failure : Option Failure) :
    (a.finish failure).report = a.symbols.report := by
  unfold finish
  split <;> rfl

end Analyzer

/-- The analysis of a source whose events can all be applied, with no syntax error behind them. -/
theorem analyze_eq_finish {source : String} {last : Analyzer}
    (hl : Analyzer.start.after (parse source).events = .ok last)
    (hf : (parse source).failure = none) : analyze source = last.finish none := by
  rw [analyze, EventStream.analyze, Analyzer.run_of_after hl, hf]
  rfl

/-- The diagnostic that a syntax error is reported as. -/
def SyntaxError.diagnostic (e : SyntaxError) : Diagnostic := ⟨e.location.line, .syntaxError e.fault⟩

/-- The diagnostics of a source are those of its events, and the syntax error behind them. -/
theorem diagnostics_of_after {source : String} {last : Analyzer}
    (hl : Analyzer.start.after (parse source).events = .ok last) : (analyze source).diagnostics =
      last.diagnostics ++ ((parse source).failure.map SyntaxError.diagnostic).toList := by
  rw [analyze, EventStream.analyze, Analyzer.run_of_after hl]
  cases (parse source).failure with
  | none => exact (Analyzer.diagnostics_finish ..).trans (List.append_nil _).symm
  | some e => exact Analyzer.diagnostics_finish ..

/-- The report of a source is that of the symbols behind its events. -/
theorem report_of_after {source : String} {last : Analyzer}
    (hl : Analyzer.start.after (parse source).events = .ok last) :
    (analyze source).report = last.symbols.report := by
  rw [analyze, EventStream.analyze, Analyzer.run_of_after hl]
  cases (parse source).failure with
  | none => exact Analyzer.report_finish ..
  | some e => exact Analyzer.report_finish ..

theorem Analysis.exitCode_eq_one_iff (a : Analysis) :
    a.exitCode = 1 ↔ (∃ d ∈ a.diagnostics, d.isError) ∨ a.failure.any Failure.isStackError := by
  simp only [exitCode, errorCount, List.countP_pos_iff]
  split <;> simp_all

/-- The events of a text that has tokens can all be applied, and leave one tree if the text is a
program. -/
theorem TokenList.parse_balanced {ts : TokenList} (h : ts.tokens ≠ []) :
    ∃ last, Analyzer.start.after ts.parse.events = .ok last ∧
      (ts.parse.failure = none → last.stackDepth = 1) := by
  have hr : Goal.run [.externals false] ts = Goal.run [.external, .externals true] ts :=
    Goal.run_replace (Goal.action_externals h) []
  have hb : ∃ last, Analyzer.start.after (Goal.run [.external, .externals true] ts).events =
      .ok last ∧ last.Paired ∧
        ((Goal.run [.external, .externals true] ts).result.isOk → last.stackDepth = 1) :=
    Goal.run_balanced Analyzer.paired_start (by simp) ⟨0, rfl, 0, rfl, rfl⟩
  obtain ⟨last, hl, -, hd⟩ := hb
  refine ⟨last, by rw [parse, hr]; exact hl, fun hf => hd ?_⟩
  rw [parse, hr] at hf
  revert hf
  cases (Goal.run [.external, .externals true] ts).result with
  | error e => simp
  | ok rest => simp [Except.isOk, Except.toBool]

/-- The events of a source can all be applied. -/
theorem exists_after_parse (source : String) :
    ∃ last, Analyzer.start.after (parse source).events = .ok last := by
  unfold parse
  split
  · next ts _ =>
    by_cases hne : ts.tokens = []
    · obtain ⟨tokens, stop⟩ := ts
      obtain rfl : tokens = [] := hne
      rw [TokenList.parse_nil]
      exact ⟨_, rfl⟩
    · obtain ⟨last, hl, -⟩ := TokenList.parse_balanced hne
      exact ⟨last, hl⟩
  · exact ⟨_, rfl⟩

/-- An event of a source is applied to the state that the events before it leave. -/
theorem exists_apply_of_parse {source : String} {before after : List Event} {event : Event}
    (he : (parse source).events = before ++ event :: after) :
    ∃ a b, Analyzer.start.after before = .ok a ∧ a.apply event = .ok b := by
  obtain ⟨last, hl⟩ := exists_after_parse source
  rw [he] at hl
  obtain ⟨a, ha, hl⟩ := Analyzer.exists_of_after_append hl
  obtain ⟨b, hb, -⟩ := Analyzer.exists_of_after_cons hl
  exact ⟨a, b, ha, hb⟩

/-! ## The three endings -/

/-- A syntax error behind events that can all be applied. -/
theorem Ending.describes_rejected {source : String} {e : SyntaxError} {last : Analyzer}
    (hl : Analyzer.start.after (parse source).events = .ok last)
    (he : (parse source).failure = some e) : Describes source (rejected e) := by
  have ha : analyze source =
      (last.report e.location.line (.syntaxError e.fault)).finish (some (.syntaxError e)) := by
    rw [analyze, EventStream.analyze, Analyzer.run_of_after hl, he]
    rfl
  have hd : (analyze source).diagnostics =
      last.diagnostics ++ [⟨e.location.line, .syntaxError e.fault⟩] := by
    rw [ha, Analyzer.diagnostics_finish]
    rfl
  refine ⟨he, by rw [ha, Analyzer.failure_finish],
    ⟨_, by rw [hd, List.getLast?_concat], rfl, rfl, rfl⟩, ?_⟩
  rw [Analysis.exitCode_eq_one_iff]
  exact .inl ⟨_, by rw [hd]; exact List.mem_concat_self, rfl⟩

theorem Ending.describes_blank {source : String} {stop : Location}
    (ht : tokenize source = .ok ⟨[], stop⟩) : Describes source blank := by
  have ha : analyze source = Analyzer.start.finish none := by
    rw [analyze, parse, ht]
    simp only [TokenList.parse_nil]
    rfl
  refine ⟨⟨stop, ht⟩, ?_⟩
  rw [ha]
  exact ⟨rfl, rfl, rfl, rfl⟩

/-- Events that can all be applied and leave one tree, with no syntax error behind them. -/
theorem Ending.describes_complete {source : String} {ts : TokenList} {last : Analyzer}
    (ht : tokenize source = .ok ts) (hne : ts.tokens ≠ [])
    (hl : Analyzer.start.after (parse source).events = .ok last)
    (hf : (parse source).failure = none) (hd : last.stackDepth = 1) :
    ∃ tree, Describes source (complete tree) := by
  obtain ⟨tree, htree⟩ := List.length_eq_one_iff.1 hd
  have ha : analyze source =
      ⟨some (tree.withLevels 1), last.symbols.report, last.diagnostics, none⟩ := by
    rw [analyze_eq_finish hl hf]
    simp only [Analyzer.finish, TreeStack.root?, htree]
  refine ⟨tree, ⟨ts, ht, hne⟩, hf, ⟨last, hl, by rw [← htree]⟩, ?_⟩
  rw [Analysis.exitCode_eq_one_iff, ha]
  exact ⟨rfl, rfl, by simp⟩

/-- Some ending describes every text. -/
theorem Ending.exists_describes (source : String) : ∃ ending, Describes source ending := by
  cases ht : tokenize source with
  | error e =>
    have hp : parse source = ⟨[], some ⟨.lexical e.fault, e.location⟩⟩ := by rw [parse, ht]
    have hl : Analyzer.start.after (parse source).events = .ok .start := by
      rw [hp]
      rfl
    exact ⟨_, describes_rejected hl (by rw [hp])⟩
  | ok ts =>
    by_cases hne : ts.tokens = []
    · have hb : tokenize source = .ok ⟨[], ts.stop⟩ := by rw [ht, ← hne]
      exact ⟨blank, describes_blank hb⟩
    · have hp : parse source = ts.parse := by rw [parse, ht]
      obtain ⟨last, hl, hd⟩ := TokenList.parse_balanced hne
      rw [← hp] at hl hd
      cases hf : (parse source).failure with
      | some e => exact ⟨_, describes_rejected hl hf⟩
      | none =>
        obtain ⟨tree, h⟩ := describes_complete ht hne hl hf (hd hf)
        exact ⟨_, h⟩

/-- A source that is analysed without an error is a program, and its events can all be applied. -/
theorem exists_after_of_no_error {source : String}
    (hc : ∀ d ∈ (analyze source).diagnostics, d.isError = false) :
    ∃ ts last, tokenize source = .ok ts ∧ ts.parse.failure = none ∧
      Analyzer.start.after ts.parse.events = .ok last ∧ analyze source = last.finish none := by
  obtain ⟨ending, h⟩ := Ending.exists_describes source
  cases ending with
  | rejected error =>
    obtain ⟨-, -, ⟨d, hd, -, he, -⟩, -⟩ := h
    exact (Bool.false_ne_true ((hc d (List.mem_of_getLast? hd)).symm.trans he)).elim
  | blank =>
    obtain ⟨⟨stop, ht⟩, -⟩ := h
    have hp : parse source = ⟨[], none⟩ := by rw [parse, ht]; exact TokenList.parse_nil stop
    have hl : Analyzer.start.after (parse source).events = .ok .start := by rw [hp]; rfl
    refine ⟨_, .start, ht, ?_, ?_, analyze_eq_finish hl (by rw [hp])⟩
    · rw [TokenList.parse_nil]
    · rw [TokenList.parse_nil]
      rfl
  | complete tree =>
    obtain ⟨⟨ts, ht, -⟩, hf, ⟨last, hl, -⟩, -⟩ := h
    have hp : parse source = ts.parse := by rw [parse, ht]
    exact ⟨ts, last, ht, hp ▸ hf, hp ▸ hl, analyze_eq_finish hl hf⟩

/-- The failure of an analysis that ends this way. -/
def Ending.failure : Ending → Option Failure
  | rejected error => some (.syntaxError error)
  | blank => some (.stack (.unbalanced 0))
  | complete _ => none

theorem Ending.failure_of_describes {source : String} {ending : Ending}
    (h : Describes source ending) : (analyze source).failure = ending.failure := by
  cases ending with
  | rejected error => exact h.2.1
  | blank => exact h.2.2.2.1
  | complete tree => exact h.2.2.2.2.1

/-- An ending is known by its failure, and by its tree if it has none. -/
theorem Ending.describes_unique {source : String} {e f : Ending} (he : Describes source e)
    (hf : Describes source f) : e = f := by
  have h : e.failure = f.failure := by
    rw [← failure_of_describes he, failure_of_describes hf]
  cases e with
  | rejected error => cases f <;> simp_all [failure]
  | blank => cases f <;> simp_all [failure]
  | complete tree =>
    cases f with
    | rejected | blank => simp [failure] at h
    | complete tree' =>
      obtain ⟨-, -, ⟨last, hl, ht⟩, -⟩ := he
      obtain ⟨-, -, ⟨last', hl', ht'⟩, -⟩ := hf
      obtain rfl := Except.ok.inj (hl.symm.trans hl')
      have := ht.symm.trans ht'
      simp_all

/-- The analysis of a text ends in exactly one of three ways, and never for want of a subtree. -/
theorem analyze_ending (source : String) :
    (∃! ending : Ending, ending.Describes source) ∧
      ∀ label needed available,
        (analyze source).failure ≠ some (.stack (.underflow label needed available)) := by
  obtain ⟨ending, h⟩ := Ending.exists_describes source
  refine ⟨⟨ending, h, fun _ hf => Ending.describes_unique hf h⟩, fun label needed available => ?_⟩
  rw [Ending.failure_of_describes h]
  cases ending <;> simp [Ending.failure]

end MiniC
