import MiniC.Proofs.Report.Layout
import MiniC.Proofs.Report.Names

/-!
# The columns of the report

The columns of a report are wide enough for its cells (`Report.fits_table`), since a width counts
bytes, of which a text has no fewer than characters. None but the last cell of a row ends in white
space : the others are words, and so is the name, which comes from the text (`Report.Row.isWord`).
The last one is a word or a single character, and if this is white space, it is not shown.

So the cells can be read off the lines of a report (`report_columns`).
-/

namespace MiniC

namespace Report

open Text

variable {cells : List String} {widths sizes : List Nat} {row : Row}

/-- The cells under the title, those of the header first. -/
def table (r : Report) : List (List String) := headers :: r.rows.map Row.cells

theorem lines_eq (r : Report) : r.lines = title :: r.table.map (line r.columnWidths) := rfl

/-! ## Widths -/

/-- A text has no more characters than bytes. -/
theorem length_le_utf8ByteSize (s : String) : s.length ≤ s.utf8ByteSize := by
  have hlen (cs : List Char) : cs.length ≤ (String.ofList cs).utf8ByteSize := by
    induction cs with
    | nil => exact Nat.zero_le _
    | cons c cs ih =>
      have hc := c.utf8Size_pos
      rw [String.ofList_cons, String.utf8ByteSize_append, String.utf8ByteSize_singleton,
        List.length_cons]
      omega
  simpa only [String.length_toList, String.ofList_toList] using hlen s.toList

/-- As wide as the sizes or wider. -/
def Covers (widths sizes : List Nat) : Prop := List.Forall₂ (· ≤ ·) sizes widths

theorem covers_max (h : widths.length = sizes.length) :
    Covers (widths.zipWith max sizes) widths ∧ Covers (widths.zipWith max sizes) sizes := by
  induction widths generalizing sizes with
  | nil =>
    obtain rfl := List.length_eq_zero_iff.1 h.symm
    exact ⟨.nil, .nil⟩
  | cons width widths ih =>
    cases sizes with
    | nil => cases h
    | cons size sizes =>
      obtain ⟨hw, hs⟩ := ih (Nat.succ.inj h)
      exact ⟨.cons (Nat.le_max_left ..) hw, .cons (Nat.le_max_right ..) hs⟩

theorem Covers.trans {wider : List Nat} (h : Covers wider widths) (h' : Covers widths sizes) :
    Covers wider sizes := by
  induction h' generalizing wider with
  | nil => exact h
  | cons hs _ ih =>
    cases h with
    | cons hw h => exact .cons (Nat.le_trans hs hw) (ih h)

theorem covers_refl (widths : List Nat) : Covers widths widths :=
  List.forall₂_same.2 fun width _ => Nat.le_refl width

/-- The widths behind more rows. -/
def widened (widths : List Nat) (rows : List Row) : List Nat :=
  rows.foldl (fun widths row => widths.zipWith max (row.cells.map String.utf8ByteSize)) widths

theorem columnWidths_eq (r : Report) :
    r.columnWidths = widened (headers.map String.utf8ByteSize) r.rows := rfl

/-- The widths cover what they covered before, and the rows. -/
theorem covers_widened (h : widths.length = 6) (rows : List Row) :
    Covers (widened widths rows) widths ∧
      ∀ row ∈ rows, Covers (widened widths rows) (row.cells.map String.utf8ByteSize) := by
  induction rows generalizing widths with
  | nil => exact ⟨covers_refl widths, List.forall_mem_nil _⟩
  | cons row rows ih =>
    have hlen : (widths.zipWith max (row.cells.map String.utf8ByteSize)).length = 6 := by
      rw [List.length_zipWith, h]
      rfl
    obtain ⟨hbefore, hrow⟩ := @covers_max widths (row.cells.map String.utf8ByteSize) h
    obtain ⟨hall, hrows⟩ := ih hlen
    exact ⟨hall.trans hbefore, List.forall_mem_cons.2 ⟨hall.trans hrow, hrows⟩⟩

theorem Covers.fits (h : Covers widths (cells.map String.utf8ByteSize)) : Fits widths cells :=
  (List.forall₂_map_left_iff.1 h).flip.imp fun _ cell hle =>
    Nat.le_trans (length_le_utf8ByteSize cell) hle

/-- The columns are as wide as their cells are long. -/
theorem fits_table (r : Report) : ∀ cells ∈ r.table, Fits r.columnWidths cells := by
  obtain ⟨hheaders, hrows⟩ := @covers_widened (headers.map String.utf8ByteSize) rfl r.rows
  rw [columnWidths_eq]
  refine List.forall_mem_cons.2 ⟨hheaders.fits, fun cells hcells => ?_⟩
  obtain ⟨row, hrow, rfl⟩ := List.mem_map.1 hcells
  exact (hrows row hrow).fits

/-! ## Cells -/

theorem trimmed_of_isWord {cell : String} (h : IsWord cell.toList) : Trimmed cell :=
  List.rdropWhile_eq_self_iff.2 fun hne => by
    rw [h.2 _ (List.getLast_mem hne)]
    exact Bool.false_ne_true

/-- The cells of a row but the last are words, if the name is one. -/
theorem Row.isWord (row : Row) (h : IsName row.name) :
    ∀ cell ∈ row.cells.dropLast, IsWord cell.toList := by
  have hnat (n : Nat) : IsWord (toString n).toList := isWord_toString (.ofNat n)
  have hkind : IsWord row.kind.tag.toList := by cases row.kind <;> decide
  have htype : IsWord row.type.name.toList := by cases row.type <;> decide
  simp only [cells, List.dropLast, List.forall_mem_cons]
  exact ⟨hkind, h.isWord, htype, hnat _, hnat _, List.forall_mem_nil _⟩

theorem Row.cells_eq (row : Row) :
    row.cells = row.cells.dropLast ++ [(row.value.map Value.text).getD "-"] := rfl

/-- A value is shown without white space. -/
theorem isWhiteSpace_text {v : Value} {c : Char} (h : c ∈ trimmedRight v.text.toList) :
    isWhiteSpace c = false := by
  by_cases hv : ∃ b < 128, v = .char b
  · obtain ⟨b, hb, rfl⟩ := hv
    rw [Value.text, if_pos hb, String.toList_ofList, trimmedRight_singleton] at h
    split at h
    · cases h
    · next hspace =>
      obtain rfl := List.mem_singleton.1 h
      exact Bool.eq_false_iff.2 hspace
  · exact (isWord_text (by simpa using hv)).2 c ((isPrefix_trimmedRight _).subset h)

theorem headers_eq :
    headers = ["Symbol", "Name", "Type", "Scope", "Line Number"] ++ ["Value"] := rfl

/-- None of the cells in front ends in white space, and none of all has a line break, but for the
white space at its end. -/
structure Clear (front : List String) (value : String) : Prop where
  trimmed : ∀ cell ∈ front, Trimmed cell
  unbroken : ∀ cell ∈ front ++ [value], '\n' ∉ trimmedRight cell.toList

theorem clear_headers : Clear ["Symbol", "Name", "Type", "Scope", "Line Number"] "Value" := by
  constructor <;> decide

/-- A row is clear if its name is a name. -/
theorem Row.clear (row : Row) (h : IsName row.name) :
    Clear row.cells.dropLast ((row.value.map Value.text).getD "-") := by
  have hbreak {cs : List Char} (hcs : ∀ c ∈ cs, isWhiteSpace c = false) : '\n' ∉ cs :=
    fun hmem => absurd (hcs '\n' hmem) (by decide)
  refine ⟨fun cell hcell => trimmed_of_isWord (row.isWord h cell hcell),
    List.forall_mem_append.2 ⟨fun cell hcell => ?_, List.forall_mem_singleton.2 ?_⟩⟩
  · have hword := row.isWord h cell hcell
    exact hbreak fun c hc => hword.2 c ((isPrefix_trimmedRight _).subset hc)
  · cases row.value with
    | none => decide
    | some v => exact hbreak fun c hc => isWhiteSpace_text hc

/-- The table is clear if the names in the rows are names. -/
theorem exists_clear {r : Report} (h : ∀ row ∈ r.rows, IsName row.name) (hm : cells ∈ r.table) :
    ∃ front value, cells = front ++ [value] ∧ Clear front value := by
  rcases List.mem_cons.1 hm with hheaders | hcells
  · exact ⟨_, _, hheaders.trans headers_eq, clear_headers⟩
  · obtain ⟨row, hrow, rfl⟩ := List.mem_map.1 hcells
    exact ⟨_, _, row.cells_eq, row.clear (h row hrow)⟩

/-- A line does not end in a carriage return. -/
theorem getLast?_line_ne (widths : List Nat) (cells : List String) :
    (line widths cells).toList.getLast? ≠ some '\r' := by
  rw [toList_line]
  intro h
  have hne : trimmedRight (untrimmed widths cells) ≠ [] := by
    rintro he
    rw [he] at h
    cases h
  have hlast := isWhiteSpace_getLast hne
  rw [List.getLast?_eq_some_getLast hne] at h
  rw [Option.some.inj h] at hlast
  exact absurd hlast (by decide)

/-- The line of a clear row has no line break. -/
theorem Clear.not_mem_line {front : List String} {value : String} (h : Clear front value)
    (hf : Fits widths (front ++ [value])) : '\n' ∉ (line widths (front ++ [value])).toList := by
  intro hmem
  rcases mem_line hf h.trimmed hmem with hblank | ⟨cell, hcell, hmem⟩
  · exact absurd hblank (by decide)
  · exact h.unbroken cell hcell hmem

/-- The text has a line for the title, one for the headers and one for each row. -/
theorem lines_text {r : Report} (h : ∀ row ∈ r.rows, IsName row.name) :
    Text.lines r.text.toList = (title :: r.table.map (line r.columnWidths)).map String.toList := by
  rw [← lines_eq]
  refine lines_join (List.forall_mem_cons.2 ⟨by decide, fun l hl => ?_⟩)
  obtain ⟨cells, hcells, rfl⟩ := List.mem_map.1 hl
  obtain ⟨front, value, rfl, hclear⟩ := exists_clear h hcells
  exact ⟨hclear.not_mem_line (fits_table r _ hcells), getLast?_line_ne _ _⟩

end Report

open Report

/-- The text of a report has a line for the title, one for the headers and one for each row, and
nothing else. In a line of the table each cell stands where its column starts, behind the widths of
the columns in front of it with two blanks each. The pieces of the line between these places, without
the blanks at their ends, are the cells, the last one without the white space at its end. -/
theorem report_columns (source : String) :
    Text.lines (analyze source).report.text.toList =
        (title :: (analyze source).report.table.map
          (line (analyze source).report.columnWidths)).map String.toList ∧
      ∀ front value, front ++ [value] ∈ (analyze source).report.table →
        Shows (analyze source).report.columnWidths front value
          (line (analyze source).report.columnWidths (front ++ [value])).toList := by
  have hnames : ∀ row ∈ (analyze source).report.rows, IsName row.name :=
    fun row hrow => isName_of_mem_rows hrow
  refine ⟨lines_text hnames, fun front value hm => ?_⟩
  obtain ⟨front', value', he, hclear⟩ := exists_clear hnames hm
  obtain ⟨rfl, hv⟩ := List.append_inj' he rfl
  exact shows_line (fits_table _ _ hm) hclear.trimmed

/-- A variable that holds a line break. -/
theorem columns_of_line_break :
    ["identifier", "c", "char", "0", "1"] ++ ["\n"] ∈ (analyze "char c='\\n';").report.table ∧
      Text.lines (analyze "char c='\\n';").report.text.toList =
        ["Symbol Table", "Symbol      Name  Type  Scope  Line Number  Value",
          "identifier  c     char  0      1"].map String.toList ∧
      Shows [10, 4, 4, 5, 11, 5] ["identifier", "c", "char", "0", "1"] "\n"
        "identifier  c     char  0      1".toList := by
  have htable : (analyze "char c='\\n';").report.table =
      [headers, ["identifier", "c", "char", "0", "1", "\n"]] := by
    cbv
  have hwidths : (analyze "char c='\\n';").report.columnWidths = [10, 4, 4, 5, 11, 5] := by cbv
  have hmem : ["identifier", "c", "char", "0", "1"] ++ ["\n"] ∈
      (analyze "char c='\\n';").report.table := by
    rw [htable]
    decide
  have hline : line [10, 4, 4, 5, 11, 5] (["identifier", "c", "char", "0", "1"] ++ ["\n"]) =
      "identifier  c     char  0      1" := by
    cbv
  obtain ⟨hlines, hshows⟩ := report_columns "char c='\\n';"
  have hrow := hshows _ _ hmem
  rw [hwidths, hline] at hrow
  refine ⟨hmem, hlines.trans ?_, hrow⟩
  rw [htable, hwidths]
  cbv

end MiniC
