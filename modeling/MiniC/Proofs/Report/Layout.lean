import Mathlib
import MiniC.Report
import MiniC.Text.Lines

/-!
# Lines in columns

A line of a report has its cells side by side, each with blanks behind it up to the width of its
column and two more, and without the white space at its end. A column starts where the one in front
of it ends (`Report.start`). From there on the line is what a line of the other cells would be
(`Report.drop_line`), so the line can be cut into its columns again, and each piece is its cell but
for blanks (`Report.shows_line`).

That needs two things of the cells : they are no longer than the columns are wide, and none but the
last ends in white space. A text of such lines is cut into them (`Text.lines_join`) if white space
is all that follows a line break in a cell, since a line ends in front of it.
-/

namespace MiniC

namespace Text

variable {cs ds : List Char} {c : Char}

/-! ## Text without its end -/

/-- The text without the blanks at its end. -/
def withoutBlanks (cs : List Char) : List Char := cs.rdropWhile (· = ' ')

theorem rdropWhile_append (p : Char → Bool) (cs ds : List Char) : (cs ++ ds).rdropWhile p =
    if ds.rdropWhile p = [] then cs.rdropWhile p else cs ++ ds.rdropWhile p := by
  simp only [List.rdropWhile, List.reverse_append, List.dropWhile_append, List.reverse_eq_nil_iff,
    List.isEmpty_iff]
  split <;> simp

theorem trimmedRight_append_eq (cs ds : List Char) : trimmedRight (cs ++ ds) =
    if trimmedRight ds = [] then trimmedRight cs else cs ++ trimmedRight ds :=
  rdropWhile_append isWhiteSpace cs ds

theorem isPrefix_trimmedRight (cs : List Char) : trimmedRight cs <+: cs :=
  List.rdropWhile_prefix isWhiteSpace cs

theorem trimmedRight_singleton (c : Char) :
    trimmedRight [c] = if isWhiteSpace c = true then [] else [c] :=
  List.rdropWhile_singleton isWhiteSpace c

theorem trimmedRight_append_blanks (cs : List Char) (n : Nat) :
    trimmedRight (cs ++ List.replicate n ' ') = trimmedRight cs := by
  have hblank : isWhiteSpace ' ' = true := by decide
  refine trimmedRight_append cs _ fun c hc => ?_
  rw [List.eq_of_mem_replicate hc, hblank]

/-- What is behind a text does not take away from it. -/
theorem trimmedRight_prefix_append (cs ds : List Char) :
    trimmedRight cs <+: trimmedRight (cs ++ ds) := by
  rw [trimmedRight_append_eq]
  split
  · exact List.prefix_rfl
  · exact (isPrefix_trimmedRight cs).trans (List.prefix_append cs _)

theorem mem_trimmedRight_append (h : c ∈ trimmedRight (cs ++ ds)) :
    c ∈ cs ∨ c ∈ trimmedRight ds := by
  rw [trimmedRight_append_eq] at h
  split at h
  · exact .inl ((isPrefix_trimmedRight cs).subset h)
  · exact List.mem_append.1 h

theorem drop_trimmedRight_append (cs ds : List Char) :
    (trimmedRight (cs ++ ds)).drop cs.length = trimmedRight ds := by
  rw [trimmedRight_append_eq]
  split
  · next h =>
    rw [h]
    exact List.drop_eq_nil_of_le (isPrefix_trimmedRight cs).length_le
  · exact List.drop_left

theorem take_trimmedRight_append (cs ds : List Char) :
    (trimmedRight (cs ++ ds)).take cs.length = cs ∨
      (trimmedRight (cs ++ ds)).take cs.length = trimmedRight cs := by
  rw [trimmedRight_append_eq]
  split
  · exact .inr (List.take_of_length_le (isPrefix_trimmedRight cs).length_le)
  · exact .inl List.take_left

/-- What is left does not end in white space. -/
theorem isWhiteSpace_getLast (h : trimmedRight cs ≠ []) :
    isWhiteSpace ((trimmedRight cs).getLast h) = false :=
  Bool.eq_false_iff.2 (List.rdropWhile_last_not isWhiteSpace cs h)

theorem withoutBlanks_trimmedRight (cs : List Char) :
    withoutBlanks (trimmedRight cs) = trimmedRight cs := by
  refine List.rdropWhile_eq_self_iff.2 fun hne hblank => ?_
  have hlast := isWhiteSpace_getLast hne
  rw [of_decide_eq_true hblank] at hlast
  exact absurd hlast (by decide)

end Text

namespace Report

open Text

variable {widths : List Nat} {width j k : Nat} {front cells : List String} {cell value : String}
  {text : List Char} {c : Char}

/-! ## Cells side by side -/

/-- The place in a line where column `j` starts : each column in front of it takes its width and two
blanks. -/
def start (widths : List Nat) (j : Nat) : Nat := ((widths.take j).map (· + 2)).sum

/-- The places where the columns start. -/
def starts (widths : List Nat) : List Nat := (List.range widths.length).map (start widths)

/-- The pieces of a text that is cut at the given places, from the first of them on. -/
def cut (text : List Char) : List Nat → List (List Char)
  | [] => []
  | [place] => [text.drop place]
  | place :: next :: places =>
    (text.drop place).take (next - place) :: cut text (next :: places)

/-- The cells side by side, the last with the blanks behind it. -/
def untrimmed (widths : List Nat) (cells : List String) : List Char :=
  [' ', ' '].intercalate (widths.zipWith padded cells)

/-- A cell in front of another. -/
def field (width : Nat) (cell : String) : List Char := padded width cell ++ [' ', ' ']

/-- No cell is longer than its column is wide. -/
def Fits (widths : List Nat) (cells : List String) : Prop :=
  List.Forall₂ (fun width cell => cell.length ≤ width) widths cells

/-- The cell does not end in white space. -/
def Trimmed (cell : String) : Prop := trimmedRight cell.toList = cell.toList

instance (cell : String) : Decidable (Trimmed cell) :=
  inferInstanceAs (Decidable (trimmedRight cell.toList = cell.toList))

theorem toList_line (widths : List Nat) (cells : List String) :
    (line widths cells).toList = trimmedRight (untrimmed widths cells) := String.toList_ofList

theorem start_cons (width : Nat) (widths : List Nat) (j : Nat) :
    start (width :: widths) (j + 1) = width + 2 + start widths j := rfl

theorem starts_cons (width : Nat) (widths : List Nat) :
    starts (width :: widths) = 0 :: (starts widths).map (width + 2 + ·) := by
  rw [starts, List.length_cons, List.range_succ_eq_map, List.map_cons, starts, List.map_map,
    List.map_map]
  rfl

theorem field_eq (width : Nat) (cell : String) :
    field width cell = cell.toList ++ List.replicate (width - cell.length + 2) ' ' := by
  rw [field, padded, List.append_assoc, List.replicate_add]
  rfl

theorem length_field (h : cell.length ≤ width) : (field width cell).length = width + 2 := by
  rw [field_eq, List.length_append, List.length_replicate, String.length_toList]
  omega

theorem untrimmed_singleton (width : Nat) (value : String) :
    untrimmed [width] [value] = padded width value := by
  simp [untrimmed, List.intercalate]

theorem untrimmed_cons (width : Nat) (cell : String) (h : Fits widths cells) (hne : cells ≠ []) :
    untrimmed (width :: widths) (cell :: cells) = field width cell ++ untrimmed widths cells := by
  cases h with
  | nil => exact (hne rfl).elim
  | cons => exact List.intercalate_cons_cons

/-- Blanks are all that is behind a cell in its field. -/
theorem withoutBlanks_field (width : Nat) (cell : String) :
    withoutBlanks (field width cell) = withoutBlanks cell.toList := by
  rw [field_eq, withoutBlanks, rdropWhile_append, if_pos]
  · rfl
  · exact List.rdropWhile_eq_nil_iff.2 fun c hc => decide_eq_true (List.eq_of_mem_replicate hc)

theorem trimmedRight_padded (width : Nat) (cell : String) :
    trimmedRight (padded width cell) = trimmedRight cell.toList := trimmedRight_append_blanks ..

theorem trimmedRight_field (width : Nat) (cell : String) :
    trimmedRight (field width cell) = trimmedRight cell.toList := by
  rw [field_eq, trimmedRight_append_blanks]

/-- From the start of a column on, a line is what a line of the other cells would be. -/
theorem drop_untrimmed (h : Fits widths cells) (hj : j < cells.length) :
    (trimmedRight (untrimmed widths cells)).drop (start widths j) =
      trimmedRight (untrimmed (widths.drop j) (cells.drop j)) := by
  induction j generalizing widths cells with
  | zero => rfl
  | succ j ih =>
    cases h with
    | nil => cases hj
    | cons hw h =>
      have hj := Nat.lt_of_succ_lt_succ hj
      have hne := List.ne_nil_of_length_pos (Nat.zero_lt_of_lt hj)
      rw [start_cons, ← List.drop_drop, untrimmed_cons _ _ h hne, ← length_field hw,
        drop_trimmedRight_append, ih h hj, List.drop_succ_cons, List.drop_succ_cons]

/-! ## The columns of a line -/

theorem prefix_untrimmed (ht : Trimmed cell) (width : Nat) (widths : List Nat)
    (cells : List String) :
    cell.toList <+: trimmedRight (untrimmed (width :: widths) (cell :: cells)) := by
  obtain ⟨rest, hrest⟩ : cell.toList <+: untrimmed (width :: widths) (cell :: cells) := by
    rw [untrimmed, List.zipWith_cons_cons]
    cases widths.zipWith padded cells with
    | nil => simp [List.intercalate, padded]
    | cons => simp [List.intercalate_cons_cons, padded]
  have hprefix := trimmedRight_prefix_append cell.toList rest
  rwa [ht, hrest] at hprefix

theorem Trimmed.withoutBlanks (ht : Trimmed cell) : withoutBlanks cell.toList = cell.toList := by
  have h : trimmedRight cell.toList = cell.toList := ht
  rw [← h, withoutBlanks_trimmedRight]

/-- The piece of a line between the starts of two columns has the cell and blanks. -/
theorem withoutBlanks_take (hw : cell.length ≤ width) (ht : Trimmed cell) (cs : List Char) :
    withoutBlanks ((trimmedRight (field width cell ++ cs)).take (width + 2)) = cell.toList := by
  rw [← length_field hw]
  obtain he | he := take_trimmedRight_append (field width cell) cs
  · rw [he, withoutBlanks_field, ht.withoutBlanks]
  · rw [he, withoutBlanks_trimmedRight, trimmedRight_field, ht]

theorem cut_starts_singleton (text : List Char) (k width : Nat) :
    cut text ((starts [width]).map (k + ·)) = [text.drop k] := by
  rw [starts_cons]
  rfl

/-- The start of the next column is where the first one ends. -/
theorem cut_starts_cons (text : List Char) (k width next : Nat) (widths : List Nat) :
    cut text ((starts (width :: next :: widths)).map (k + ·)) =
      (text.drop k).take (width + 2) ::
        cut text ((starts (next :: widths)).map (k + (width + 2) + ·)) := by
  rw [starts_cons, starts_cons]
  simp only [List.map_cons, List.map_map, Nat.add_zero, cut, Nat.add_sub_cancel_left,
    Function.comp_def, Nat.add_assoc]

theorem cut_untrimmed (h : Fits widths (front ++ [value])) (hf : ∀ cell ∈ front, Trimmed cell)
    (ht : text.drop k = trimmedRight (untrimmed widths (front ++ [value]))) :
    (cut text ((starts widths).map (k + ·))).map withoutBlanks =
      front.map String.toList ++ [trimmedRight value.toList] := by
  induction front generalizing widths k with
  | nil =>
    obtain ⟨width, _, -, hnil, rfl⟩ := List.forall₂_cons_right_iff.1 h
    obtain rfl := List.forall₂_nil_right_iff.1 hnil
    rw [cut_starts_singleton, ht, List.nil_append, untrimmed_singleton, trimmedRight_padded,
      List.map_singleton, withoutBlanks_trimmedRight]
    rfl
  | cons cell front ih =>
    obtain ⟨hcell, hf⟩ := List.forall_mem_cons.1 hf
    rw [List.cons_append] at h ht
    obtain ⟨width, widths, hw, hfits, rfl⟩ := List.forall₂_cons_right_iff.1 h
    rw [untrimmed_cons _ _ hfits (by simp)] at ht
    have hrest : text.drop (k + (width + 2)) =
        trimmedRight (untrimmed widths (front ++ [value])) := by
      rw [← List.drop_drop, ht, ← length_field hw, drop_trimmedRight_append]
    have ih := ih hfits hf hrest
    cases widths with
    | nil => cases front <;> cases hfits
    | cons next widths =>
      rw [cut_starts_cons, List.map_cons, ht, withoutBlanks_take hw hcell, ih]
      rfl

/-- What can be read off a line, the last cell of which is `value`. -/
structure Shows (widths : List Nat) (front : List String) (value : String) (text : List Char) :
    Prop where
  /-- Each cell stands where its column starts. -/
  starts : ∀ j cell, front[j]? = some cell → cell.toList <+: text.drop (start widths j)
  /-- The last one is the rest of the line, without the white space at its end. -/
  last : text.drop (start widths front.length) = trimmedRight value.toList
  /-- The pieces between the starts of the columns are the cells, but for blanks. -/
  pieces : (cut text (Report.starts widths)).map withoutBlanks =
    front.map String.toList ++ [trimmedRight value.toList]

/-- From the start of a column on, the line has the cell and those behind it. -/
theorem drop_line (h : Fits widths cells) (hj : j < cells.length) :
    ∃ width, (line widths cells).toList.drop (start widths j) =
      trimmedRight (untrimmed (width :: widths.drop (j + 1)) (cells[j] :: cells.drop (j + 1))) := by
  have hw : j < widths.length := h.length_eq ▸ hj
  rw [toList_line, drop_untrimmed h hj]
  exact ⟨widths[j], by rw [List.getElem_cons_drop, List.getElem_cons_drop]⟩

/-- A line shows its cells if they fit and none but the last ends in white space. -/
theorem shows_line (h : Fits widths (front ++ [value])) (hf : ∀ cell ∈ front, Trimmed cell) :
    Shows widths front value (line widths (front ++ [value])).toList := by
  have hlen : (front ++ [value]).length = front.length + 1 := by simp
  refine ⟨fun j cell hcell => ?_, ?_, ?_⟩
  · obtain ⟨hj, rfl⟩ := List.getElem?_eq_some_iff.1 hcell
    obtain ⟨width, hdrop⟩ := drop_line h (j := j) (by omega)
    rw [hdrop, List.getElem_append_left hj]
    exact prefix_untrimmed (hf _ (List.getElem_mem hj)) ..
  · obtain ⟨width, hdrop⟩ := drop_line h (j := front.length) (by omega)
    have hrest : widths.drop (front.length + 1) = [] :=
      List.drop_eq_nil_of_le (by rw [h.length_eq, hlen])
    rw [hdrop, hrest, List.drop_eq_nil_of_le (Nat.le_of_eq hlen), List.getElem_concat_length rfl,
      untrimmed_singleton, trimmedRight_padded]
  · have hcut : (cut (trimmedRight (untrimmed widths (front ++ [value])))
        ((starts widths).map (0 + ·))).map withoutBlanks = _ := cut_untrimmed h hf rfl
    rw [toList_line]
    simpa only [Nat.zero_add, List.map_id'] using hcut

/-- A character of a line is a blank, or one of a cell without the white space at its end. -/
theorem mem_line (h : Fits widths (front ++ [value])) (hf : ∀ cell ∈ front, Trimmed cell)
    (hc : c ∈ (line widths (front ++ [value])).toList) :
    c = ' ' ∨ ∃ cell ∈ front ++ [value], c ∈ trimmedRight cell.toList := by
  rw [toList_line] at hc
  induction front generalizing widths with
  | nil =>
    obtain ⟨width, _, -, hnil, rfl⟩ := List.forall₂_cons_right_iff.1 h
    obtain rfl := List.forall₂_nil_right_iff.1 hnil
    rw [List.nil_append, untrimmed_singleton, trimmedRight_padded] at hc
    exact .inr ⟨value, List.mem_singleton_self value, hc⟩
  | cons cell front ih =>
    obtain ⟨hcell, hf⟩ := List.forall_mem_cons.1 hf
    rw [List.cons_append] at h hc ⊢
    obtain ⟨width, widths, -, hfits, rfl⟩ := List.forall₂_cons_right_iff.1 h
    rw [untrimmed_cons _ _ hfits (by simp)] at hc
    rcases mem_trimmedRight_append hc with hc | hc
    · rw [field_eq, List.mem_append] at hc
      rcases hc with hc | hblank
      · exact .inr ⟨cell, List.mem_cons_self, hcell.symm ▸ hc⟩
      · exact .inl (List.eq_of_mem_replicate hblank)
    · rcases ih hfits hf hc with hblank | ⟨cell', hmem, hc⟩
      · exact .inl hblank
      · exact .inr ⟨cell', List.mem_cons_of_mem cell hmem, hc⟩

end Report

/-! ## The lines of a text -/

namespace Text

theorem linesFrom_append {line : List Char} (h : '\n' ∉ line) (acc rest : List Char) :
    linesFrom acc (line ++ '\n' :: rest) =
      withoutReturn (acc.reverse ++ line) :: linesFrom [] rest := by
  induction line generalizing acc with
  | nil => simp [linesFrom]
  | cons c line ih =>
    rw [List.mem_cons, not_or] at h
    rw [List.cons_append, linesFrom, if_neg (Ne.symm h.1), ih h.2]
    simp

/-- Text is cut into its lines if they have no line break and no carriage return at the end. -/
theorem lines_join {ls : List String}
    (h : ∀ l ∈ ls, '\n' ∉ l.toList ∧ l.toList.getLast? ≠ some '\r') :
    lines (String.join (ls.map (· ++ "\n"))).toList = ls.map String.toList := by
  induction ls with
  | nil => rfl
  | cons l ls ih =>
    obtain ⟨⟨hbreak, hreturn⟩, h⟩ := List.forall_mem_cons.1 h
    have hl : withoutReturn l.toList = l.toList := if_neg hreturn
    have hrest := linesFrom_append hbreak [] (String.join (ls.map (· ++ "\n"))).toList
    rw [List.reverse_nil, List.nil_append, hl] at hrest
    rw [List.map_cons, String.join_cons, String.toList_append, String.toList_append,
      List.append_assoc, List.map_cons, ← ih h]
    exact hrest

end Text

end MiniC
