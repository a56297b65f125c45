import MiniC.Proofs.Effect
import MiniC.Proofs.Grammar.Origin
import MiniC.Proofs.Outcome
import MiniC.Proofs.Token.Place
import MiniC.Viewer.Screen

/-!
# Diagnostics and their marks

The viewer numbers the rows of its source pane by the lines of the text, and the lexer counts line
breaks. Both agree on every place in a text but one : behind a line break at the very end, the lexer
is on a line that the viewer does not show. Only a syntax error is ever found there
(`Diagnostic.PastEnd`), and it is the only diagnostic without a row, and its mark the only one that
is in the gutter of none (`Viewer.marks_shown`).
-/

namespace MiniC

/-! ## The places of diagnostics -/

/-- A rule that is told at the end of a text reports nothing. -/
theorem Rule.not_reports_emptyBlock (p : Problem) : ¬emptyBlock.Reports p := by
  intro h
  cases h with
  | redefinition h => cases h

namespace Analyzer

variable {a z : Analyzer} {events : List Event}

/-- A diagnostic that events add is on the line of one that reports it. -/
theorem exists_reports_of_after (h : a.after events = .ok z) : ∀ d ∈ z.diagnostics,
    d ∈ a.diagnostics ∨ ∃ e ∈ events, d.line = e.location.line ∧ e.rule.Reports d.problem := by
  induction events generalizing a with
  | nil =>
    obtain rfl := Except.ok.inj h
    exact fun d hd => .inl hd
  | cons event events ih =>
    obtain ⟨b, hb, hz⟩ := exists_of_after_cons h
    obtain ⟨more, hmore, hm⟩ := apply_adds hb
    intro d hd
    obtain hd | ⟨e, he, hd⟩ := ih hz d hd
    · obtain hd | hd := List.mem_append.1 (hmore ▸ hd)
      · exact .inl hd
      · exact .inr ⟨event, List.mem_cons_self, hm d hd⟩
    · exact .inr ⟨e, List.mem_cons_of_mem event he, hd⟩

end Analyzer

/-- An event that reports something is at a character of the text. -/
theorem Event.isAt_of_reports {source : String} {e : Event} {p : Problem}
    (he : e ∈ (parse source).events) (hp : e.rule.Reports p) :
    e.location.IsAt source.toList := by
  obtain ⟨ts, ht, -, ⟨t, hm, hl⟩ | ⟨hr, -⟩⟩ := Event.exists_standsIn he
  · exact hl ▸ (tokenize_places ht).1 t hm
  · exact (Rule.not_reports_emptyBlock p (hr ▸ hp)).elim

/-- A syntax error is at a place in the text. -/
theorem SyntaxError.isIn {source : String} {e : SyntaxError}
    (he : (parse source).failure = some e) : e.location.IsIn source.toList := by
  unfold parse at he
  split at he
  · next ts ht =>
    obtain ⟨htokens, hstop⟩ := tokenize_places ht
    obtain ⟨t, hm, hl⟩ | hl := TokenList.error_place he
    · exact hl ▸ (htokens t hm).isIn
    · exact ⟨source.toList, [], (List.append_nil _).symm, hl.trans hstop⟩
  · next f ht =>
    obtain rfl := Option.some.inj he
    exact tokenize_fault_place ht

/-- An empty text has no diagnostics. -/
theorem diagnostics_of_nil {source : String} (h : source.toList = []) :
    (analyze source).diagnostics = [] := by
  obtain rfl : source = "" := String.toList_eq_nil_iff.1 h
  cbv

/-- The diagnostic is the syntax error of the text, found behind a line break at its end. -/
def Diagnostic.PastEnd (source : String) (d : Diagnostic) : Prop :=
  source.toList.getLast? = some '\n' ∧ ∃ e, (parse source).failure = some e ∧
    e.location = .behind source.toList ∧ d = e.diagnostic

/-- A diagnostic is on a line of the text, unless it is past its end. -/
theorem Diagnostic.line_mem {source : String} {d : Diagnostic}
    (hd : d ∈ (analyze source).diagnostics) : 1 ≤ d.line ∧
      (d.line ≤ (Text.lines source.toList).length ↔ ¬d.PastEnd source) := by
  have hpast : d.PastEnd source → ¬d.line ≤ (Text.lines source.toList).length := by
    rintro ⟨hlast, e, -, he, rfl⟩
    have hline : e.diagnostic.line = e.location.line := rfl
    rw [hline, he, Location.line_behind_concat hlast]
    exact Nat.not_succ_le_self _
  have hshown (h : 1 ≤ d.line) (hle : d.line ≤ (Text.lines source.toList).length) :
      1 ≤ d.line ∧ (d.line ≤ (Text.lines source.toList).length ↔ ¬d.PastEnd source) :=
    ⟨h, iff_of_true hle fun hp => hpast hp hle⟩
  have hne : source.toList ≠ [] := by
    intro h
    rw [diagnostics_of_nil h] at hd
    cases hd
  obtain ⟨last, hl⟩ := exists_after_parse source
  rw [diagnostics_of_after hl, List.mem_append, Option.mem_toList,
    Option.map_eq_some_iff] at hd
  obtain hd | ⟨e, he, rfl⟩ := hd
  · obtain hd | ⟨e, he, hline, hr⟩ := Analyzer.exists_reports_of_after hl d hd
    · cases hd
    have hat := Event.isAt_of_reports he hr
    exact hshown (hline ▸ hat.isIn.one_le_line) (hline ▸ hat.line_le)
  · have hin := SyntaxError.isIn he
    have hone : 1 ≤ e.diagnostic.line := hin.one_le_line
    obtain hat | hend := hin.isAt_or_eq
    · exact hshown hone hat.line_le
    · have hline : e.diagnostic.line = (Location.behind source.toList).line :=
        congrArg Location.line hend
      by_cases hlast : source.toList.getLast? = some '\n'
      · have hp : e.diagnostic.PastEnd source := ⟨hlast, e, he, hend, rfl⟩
        exact ⟨hone, iff_of_false (hpast hp) (not_not_intro hp)⟩
      · exact hshown hone (hline ▸ Location.line_behind_le hne hlast)

/-! ## Marks -/

namespace Viewer

/-- One more diagnostic gives its line a mark, unless it has one. -/
theorem map_line_addMark (marks : List Mark) (d : Diagnostic) :
    (addMark marks d).map Mark.line =
      if d.line ∈ marks.map Mark.line then marks.map Mark.line
      else marks.map Mark.line ++ [d.line] := by
  induction marks with
  | nil => rfl
  | cons m marks ih =>
    rw [addMark]
    split
    · next h =>
      have hline : (if d.isError then { m with severity := .error } else m : Mark).line =
          m.line := by
        split <;> rfl
      rw [List.map_cons, hline, List.map_cons, if_pos (h ▸ List.mem_cons_self)]
    · next h =>
      rw [List.map_cons, ih]
      simp only [List.map_cons, List.mem_cons, Ne.symm h, false_or]
      split <;> rfl

/-- The marks are on the lines of the diagnostics, one on each. -/
theorem lines_foldl_addMark (ds : List Diagnostic) (marks : List Mark)
    (h : (marks.map Mark.line).Nodup) : ((ds.foldl addMark marks).map Mark.line).Nodup ∧
      ∀ n, n ∈ (ds.foldl addMark marks).map Mark.line ↔
        n ∈ marks.map Mark.line ∨ ∃ d ∈ ds, d.line = n := by
  induction ds generalizing marks with
  | nil => simpa using h
  | cons d ds ih =>
    have hadd : ((addMark marks d).map Mark.line).Nodup ∧ ∀ n,
        n ∈ (addMark marks d).map Mark.line ↔ n ∈ marks.map Mark.line ∨ d.line = n := by
      rw [map_line_addMark]
      split
      · next hd => exact ⟨h, fun n => ⟨.inl, fun hn => hn.elim id fun e => e ▸ hd⟩⟩
      · next hd =>
        refine ⟨List.nodup_append.2 ⟨h, by simp, ?_⟩, fun n => ?_⟩
        · rintro a ha b hb rfl
          exact hd (List.mem_singleton.1 hb ▸ ha)
        · rw [List.mem_append, List.mem_singleton, eq_comm]
    obtain ⟨hnodup, hmem⟩ := ih (addMark marks d) hadd.1
    refine ⟨hnodup, fun n => (hmem n).trans ?_⟩
    rw [hadd.2, List.exists_mem_cons_iff, or_assoc]

theorem nodup_lines_marksOf (ds : List Diagnostic) : ((marksOf ds).map Mark.line).Nodup :=
  (lines_foldl_addMark ds [] .nil).1

theorem mem_lines_marksOf {ds : List Diagnostic} {n : Nat} :
    n ∈ (marksOf ds).map Mark.line ↔ ∃ d ∈ ds, d.line = n := by
  have h := (lines_foldl_addMark ds [] .nil).2 n
  simpa [marksOf] using h

/-- The mark that is found on the line of a mark is that mark. -/
theorem find?_mark {marks : List Mark} (h : (marks.map Mark.line).Nodup) {m : Mark}
    (hm : m ∈ marks) : marks.find? (·.line = m.line) = some m := by
  induction marks with
  | nil => cases hm
  | cons k marks ih =>
    rw [List.map_cons, List.nodup_cons] at h
    obtain rfl | hm := List.mem_cons.1 hm
    · simp
    · have hk : k.line ≠ m.line := fun e => h.1 (e ▸ List.mem_map_of_mem hm)
      rw [List.find?_cons_of_neg (by simpa using hk), ih h.2 hm]

/-! ## The rows of the source pane -/

/-- The rows of the source pane, those in front of the window and behind it included. -/
def sourceRows (v : Viewer) : List Row :=
  (v.lines.zipIdx 1).map fun (line, n) => sourceRow v.marks n line

/-- The source pane shows a window of its rows. -/
theorem sourcePane_eq (v : Viewer) (layout : Layout) : sourcePane v layout =
    boxed " Source Code " (Theme.border (v.focus = .source)) .plain layout.left
      (layout.height .source) (window v.scroll.source (layout.visible .source) v.sourceRows) := by
  rw [sourcePane, sourceRows, window, window, ← List.map_drop, ← List.map_take]

/-- The mark is in the gutter of the row with its number. -/
def Shows (v : Viewer) (m : Mark) : Prop :=
  ∃ i line, i + 1 = m.line ∧ v.lines[i]? = some line ∧ v.sourceRows[i]? = some (Row.ofSpans
    (⟨lineNumber m.line ++ [' '], .colored Theme.muted⟩ :: gutter (some m) :: highlight line))

/-- A mark is shown if its line is one of the text. -/
theorem shows_iff {v : Viewer} {m : Mark} (hm : m ∈ v.marks) :
    v.Shows m ↔ 1 ≤ m.line ∧ m.line ≤ v.lines.length := by
  constructor
  · rintro ⟨i, line, hi, hline, -⟩
    obtain ⟨hlt, -⟩ := List.getElem?_eq_some_iff.1 hline
    omega
  · rintro ⟨hone, hle⟩
    have hlt : m.line - 1 < v.lines.length := by omega
    have hi : 1 + (m.line - 1) = m.line := by omega
    refine ⟨m.line - 1, v.lines[m.line - 1], by omega, List.getElem?_eq_getElem hlt, ?_⟩
    rw [sourceRows, List.getElem?_map, List.getElem?_zipIdx, List.getElem?_eq_getElem hlt]
    have hfind : v.marks.find? (·.line = m.line) = some m := find?_mark (nodup_lines_marksOf _) hm
    simp only [Option.map_some, hi, sourceRow, hfind]

end Viewer

/-! ## What is shown -/

/-- Every diagnostic has a row in the source pane, and every mark is in the gutter of its row,
except that a syntax error found behind a line break at the end of the text is one row further
down. -/
theorem Viewer.marks_shown (source : String) :
    (∀ d ∈ (analyze source).diagnostics, 1 ≤ d.line ∧
      (d.line ≤ (ofAnalysis source (analyze source)).sourceRows.length ↔ ¬d.PastEnd source)) ∧
    ∀ m ∈ (ofAnalysis source (analyze source)).marks,
      ((ofAnalysis source (analyze source)).Shows m ↔
        ∀ d ∈ (analyze source).diagnostics, d.line = m.line → ¬d.PastEnd source) := by
  have hlen : (ofAnalysis source (analyze source)).sourceRows.length =
      (Text.lines source.toList).length := by
    simp [sourceRows, lines, ofAnalysis]
  refine ⟨fun d hd => hlen ▸ Diagnostic.line_mem hd, fun m hm => ?_⟩
  obtain ⟨d, hd, hline⟩ := mem_lines_marksOf.1 (List.mem_map_of_mem hm)
  obtain ⟨hone, hle⟩ := Diagnostic.line_mem hd
  rw [shows_iff hm, ← hline]
  constructor
  · rintro ⟨-, h⟩ e he heq
    exact (Diagnostic.line_mem he).2.1 (heq ▸ h)
  · exact fun h => ⟨hone, hle.2 (h d hd rfl)⟩

/-- The missing semicolon is found on the line behind the only one of the text. -/
theorem Viewer.mark_of_unfinished_declaration :
    ∃ d ∈ (analyze "int a\n").diagnostics,
      (ofAnalysis "int a\n" (analyze "int a\n")).sourceRows.length < d.line ∧
      ∃ m ∈ (ofAnalysis "int a\n" (analyze "int a\n")).marks, m.line = d.line ∧
        ¬(ofAnalysis "int a\n" (analyze "int a\n")).Shows m := by
  have hd : (analyze "int a\n").diagnostics =
      [⟨2, .syntaxError (.unexpected (.sign .semicolon "after declaration") none)⟩] := by cbv
  have hm : (ofAnalysis "int a\n" (analyze "int a\n")).marks = [⟨2, .error⟩] := by
    rw [marks, ofAnalysis, hd]
    rfl
  have hl : (ofAnalysis "int a\n" (analyze "int a\n")).lines.length = 1 := by cbv
  refine ⟨_, by rw [hd]; exact List.mem_singleton_self _, ?_, ⟨2, .error⟩, by simp [hm], rfl, ?_⟩
  · simp [sourceRows, hl]
  · rw [shows_iff (by simp [hm]), hl]
    decide

end MiniC
