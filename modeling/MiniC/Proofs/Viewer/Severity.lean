import MiniC.Proofs.Viewer.Marks

/-!
# The worst severity on a line

The marks are made in one pass over the diagnostics, which changes a mark when a worse problem of
its line comes by. What is found of a line in the end is told by its diagnostics alone, wherever in
the list they are : its worst severity (`worst?`, `find?_marksOf`), which is also what the gutter of
its row shows. The marks themselves are in the order in which their lines were first reported
(`ordered_marksOf`).
-/

namespace MiniC.Viewer

variable (ds : List Diagnostic) (d : Diagnostic) (n : Nat)

/-! ## The mark of a line -/

/-- The worst severity of the diagnostics on a line, if it has any. -/
def worst? : Option Severity :=
  if ∃ d ∈ ds, d.line = n ∧ d.isError then some .error
  else if ∃ d ∈ ds, d.line = n then some .warning
  else none

theorem worst?_eq_error_iff :
    worst? ds n = some .error ↔ ∃ d ∈ ds, d.line = n ∧ d.isError := by
  unfold worst?
  split <;> simp_all

/-- The severity of a line once `d` is reported on it as well. -/
def raised (s : Option Severity) : Severity :=
  if d.isError then .error else s.getD .warning

/-- One more diagnostic raises the severity of its own line only. -/
theorem worst?_concat :
    worst? (ds ++ [d]) n = if d.line = n then some (raised d (worst? ds n)) else worst? ds n := by
  simp only [worst?, raised, List.mem_append, List.mem_singleton, or_and_right, exists_or,
    exists_eq_left]
  by_cases hn : d.line = n
  · by_cases hd : d.isError
    · simp [hn, hd]
    · simp only [hn, hd]
      (repeat' split) <;> simp_all
  · simp [hn]

/-- A severity that is no error is a warning. -/
theorem raised_none : raised d none = d.severity := by
  unfold raised Diagnostic.isError
  cases d.severity <;> rfl

/-- One more diagnostic changes what is found on its own line only. -/
theorem find?_addMark (marks : List Mark) :
    (addMark marks d).find? (·.line = n) =
      if d.line = n then some ⟨n, raised d ((marks.find? (·.line = n)).map Mark.severity)⟩
      else marks.find? (·.line = n) := by
  induction marks with
  | nil =>
    by_cases h : d.line = n
    · simp [addMark, h, raised_none]
    · simp [addMark, h]
  | cons m marks ih =>
    by_cases hm : m.line = d.line
    · have hline : (if d.isError then { m with severity := .error } else m : Mark) =
          ⟨d.line, raised d (some m.severity)⟩ := by
        unfold raised
        split <;> simp [← hm]
      rw [addMark, if_pos hm, hline]
      by_cases h : d.line = n
      · simp [h, hm]
      · simp [h, hm]
    · rw [addMark, if_neg hm]
      by_cases h : m.line = n
      · simp [h, show d.line ≠ n from fun e => hm (h.trans e.symm)]
      · simp [h, ih]

/-- The mark that is found on a line has the worst severity of its diagnostics. -/
theorem find?_marksOf : (marksOf ds).find? (·.line = n) = (worst? ds n).map (Mark.mk n) := by
  induction ds using List.reverseRecOn with
  | nil => rfl
  | append_singleton ds d ih =>
    rw [marksOf, List.foldl_concat, ← marksOf, find?_addMark, worst?_concat, ih]
    split
    · simp [Option.map_map, Function.comp_def]
    · rfl

/-- An error counts in front of a warning and behind one. -/
example : marksOf [⟨3, .divisionByZero⟩, ⟨1, .notAssignable⟩, ⟨3, .notAssignable⟩,
    ⟨1, .missingType⟩] = [⟨3, .error⟩, ⟨1, .error⟩] := rfl

/-- A mark has the worst severity of its line. -/
theorem worst?_of_mem_marksOf {m : Mark} (hm : m ∈ marksOf ds) :
    worst? ds m.line = some m.severity := by
  have h := find?_marksOf ds m.line
  rw [find?_mark (nodup_lines_marksOf ds) hm] at h
  obtain ⟨s, hs, hsm⟩ := Option.map_eq_some_iff.1 h.symm
  rw [hs, ← hsm]

/-! ## The order of the marks -/

/-- The marks are in the order in which their lines were first reported. -/
theorem ordered_marksOf : ((marksOf ds).map Mark.line).Pairwise fun k n =>
    (ds.map Diagnostic.line).idxOf k < (ds.map Diagnostic.line).idxOf n := by
  induction ds using List.reverseRecOn with
  | nil => exact .nil
  | append_singleton ds d ih =>
    have hmem {k : Nat} (hk : k ∈ (marksOf ds).map Mark.line) : k ∈ ds.map Diagnostic.line := by
      simpa using mem_lines_marksOf.1 hk
    have hold : ((marksOf ds).map Mark.line).Pairwise fun k n =>
        ((ds ++ [d]).map Diagnostic.line).idxOf k < ((ds ++ [d]).map Diagnostic.line).idxOf n := by
      refine ih.imp_of_mem fun hk hn hlt => ?_
      rw [List.map_append, List.idxOf_append_of_mem (hmem hk), List.idxOf_append_of_mem (hmem hn)]
      exact hlt
    rw [marksOf, List.foldl_concat, ← marksOf, map_line_addMark]
    split
    · exact hold
    · next hd =>
      refine List.pairwise_append.2 ⟨hold, List.pairwise_singleton _ _, fun k hk n hn => ?_⟩
      obtain rfl := List.mem_singleton.1 hn
      have hnew : d.line ∉ ds.map Diagnostic.line := fun h =>
        hd (by simpa [mem_lines_marksOf] using h)
      rw [List.map_append, List.idxOf_append_of_mem (hmem hk), List.idxOf_append_of_notMem hnew]
      exact Nat.lt_add_right _ (List.idxOf_lt_length_of_mem (hmem hk))

/-! ## What the gutter shows -/

/-- The row of a line has the mark of its worst severity in the gutter. -/
theorem getElem?_sourceRows {v : Viewer} {i : Nat} {line : List Char}
    (h : v.lines[i]? = some line) :
    v.sourceRows[i]? = some (Row.ofSpans (⟨lineNumber (i + 1) ++ [' '], .colored Theme.muted⟩ ::
      gutter ((worst? v.analysis.diagnostics (i + 1)).map (Mark.mk (i + 1))) ::
      highlight line)) := by
  rw [sourceRows, List.getElem?_map, List.getElem?_zipIdx, h, Nat.add_comm 1 i]
  simp only [Option.map_some, sourceRow, marks, find?_marksOf]

/-- The lines with a diagnostic have one mark each, in the order in which they were first reported,
and no other line has one. A mark is an error if any diagnostic of its line is, and the gutter of
every row shows the worst severity on its line. -/
theorem marks_summarise (v : Viewer) :
    ((v.marks.map Mark.line).Nodup ∧
      (∀ n, n ∈ v.marks.map Mark.line ↔ ∃ d ∈ v.analysis.diagnostics, d.line = n) ∧
      (v.marks.map Mark.line).Pairwise fun k n =>
        (v.analysis.diagnostics.map Diagnostic.line).idxOf k <
          (v.analysis.diagnostics.map Diagnostic.line).idxOf n) ∧
    (∀ m ∈ v.marks,
      m.severity = .error ↔ ∃ d ∈ v.analysis.diagnostics, d.line = m.line ∧ d.isError) ∧
    ∀ i line, v.lines[i]? = some line →
      v.sourceRows[i]? = some (Row.ofSpans (⟨lineNumber (i + 1) ++ [' '], .colored Theme.muted⟩ ::
        gutter ((worst? v.analysis.diagnostics (i + 1)).map (Mark.mk (i + 1))) ::
        highlight line)) := by
  refine ⟨⟨nodup_lines_marksOf _, fun n => mem_lines_marksOf, ordered_marksOf _⟩, fun m hm => ?_,
    fun i line h => getElem?_sourceRows h⟩
  rw [← worst?_eq_error_iff, worst?_of_mem_marksOf _ hm, Option.some.injEq]

end MiniC.Viewer
