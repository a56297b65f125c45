import MiniC.Proofs.Labels
import MiniC.Viewer.State

/-!
# The outline and the tree

The rows of the outline are read off indented lines : the white space that a line starts with is
taken for its indent, and a row has children if the next one is indented deeper. `Viewer.mirror` are
the rows that the tree itself asks for, one for each node.

They are the same rows as long as no label starts with white space (`Viewer.outlineRows_linesAt`),
and a label that does is never shown as it is. It is the character of a literal, so the outline is
that of the tree for all texts but those that leave a blank literal in it
(`Viewer.outline_eq_mirror_iff`).
-/

namespace MiniC

/-- The text does not start with white space. -/
def Plain (cs : List Char) : Prop := ∀ c ∈ cs.head?, Text.isWhiteSpace c = false

theorem IsWord.plain {cs : List Char} (h : IsWord cs) : Plain cs :=
  fun c hc => h.2 c (List.mem_of_mem_head? hc)

namespace Viewer

/-- The rows for a tree whose root stands at the given depth : one for each node, a node before its
children, with two blanks of indent for each step down. -/
def mirror (depth : Nat) : Tree → List OutlineRow
  | .empty => []
  | .node label level a b c d =>
    ⟨2 * depth, label.toList, !(Tree.node label level a b c d).isLeaf⟩ ::
      (mirror (depth + 1) a ++ (mirror (depth + 1) b ++
        (mirror (depth + 1) c ++ mirror (depth + 1) d)))

/-! ## Indented lines -/

/-- A label behind two blanks for each step down. -/
def lineAt (depth : Nat) (label : String) : List Char :=
  List.replicate (2 * depth) ' ' ++ label.toList

/-- The lines of a tree whose root stands at the given depth. -/
def linesAt (depth : Nat) : Tree → List (List Char)
  | .empty => []
  | .node label _ a b c d =>
    lineAt depth label :: (linesAt (depth + 1) a ++ (linesAt (depth + 1) b ++
      (linesAt (depth + 1) c ++ linesAt (depth + 1) d)))

theorem linesAt_withLevels (t : Tree) (depth n : Nat) :
    linesAt depth (t.withLevels n) = linesAt depth t := by
  induction t generalizing depth n with
  | empty => rfl
  | node label level a b c d iha ihb ihc ihd =>
    simp only [Tree.withLevels, linesAt, iha, ihb, ihc, ihd]

/-- The lines are the nodes at their distances. -/
theorem linesAt_eq_map_distances (t : Tree) (depth : Nat) :
    linesAt depth t = (t.distances depth).map fun row => lineAt row.1 row.2 := by
  induction t generalizing depth with
  | empty => rfl
  | node label level a b c d iha ihb ihc ihd =>
    simp only [linesAt, Tree.distances, iha, ihb, ihc, ihd, List.map_cons, List.map_append,
      List.append_assoc]

/-- The outline of a tree with levels is its lines from the left edge on. -/
theorem outline_withLevels {t : Tree} (h : t.isEmpty = false) (n : Nat) :
    (t.withLevels n).outline.map String.toList = linesAt 0 (t.withLevels n) := by
  rw [linesAt_withLevels, linesAt_eq_map_distances, Tree.outline_eq_map_distances h, List.map_map]
  simp [Function.comp_def, lineAt]

theorem indentOf_blanks (n : Nat) (cs : List Char) :
    indentOf (List.replicate n ' ' ++ cs) = n + indentOf cs := by
  induction n with
  | zero => simp
  | succ n ih =>
    have hblank : Text.isWhiteSpace ' ' = true := by decide
    have hsize : ' '.utf8Size = 1 := by decide
    rw [List.replicate_succ, List.cons_append, indentOf, List.takeWhile_cons_of_pos hblank,
      List.map_cons, List.foldr_cons, hsize, Nat.add_comm n 1, Nat.add_assoc, ← ih]
    rfl

theorem trimmedLeft_blanks (n : Nat) (cs : List Char) :
    Text.trimmedLeft (List.replicate n ' ' ++ cs) = Text.trimmedLeft cs :=
  List.dropWhile_append_of_pos fun c hc => by
    rw [List.eq_of_mem_replicate hc]
    decide

theorem indentOf_lineAt {label : String} (h : Plain label.toList) (depth : Nat) :
    indentOf (lineAt depth label) = 2 * depth := by
  have hzero : indentOf label.toList = 0 := by
    cases hl : label.toList with
    | nil => rfl
    | cons c cs =>
      have hc : ¬Text.isWhiteSpace c = true := by simp [h c (by simp [hl])]
      rw [indentOf, List.takeWhile_cons_of_neg hc]
      rfl
  rw [lineAt, indentOf_blanks, hzero, Nat.add_zero]

theorem trimmedLeft_lineAt {label : String} (h : Plain label.toList) (depth : Nat) :
    Text.trimmedLeft (lineAt depth label) = label.toList := by
  rw [lineAt, trimmedLeft_blanks, Text.trimmedLeft]
  cases hl : label.toList with
  | nil => rfl
  | cons c cs => exact List.dropWhile_cons_of_neg (by simp [h c (by simp [hl])])

/-! ## Rows -/

/-- All labels of the tree are plain. -/
def PlainLabels (t : Tree) : Prop := ∀ label ∈ t.postorder, Plain label.toList

variable {t : Tree} {depth : Nat} {rest : List (List Char)}

/-- Lines that are not indented deeper stay so behind a tree at this depth. -/
theorem indent_head_le (ht : PlainLabels t) (hr : ∀ line ∈ rest.head?, indentOf line ≤ 2 * depth) :
    ∀ line ∈ (linesAt depth t ++ rest).head?, indentOf line ≤ 2 * depth := by
  cases t with
  | empty => exact hr
  | node label level a b c d =>
    have hlabel : Plain label.toList := ht label (by simp [Tree.postorder])
    simp [linesAt, indentOf_lineAt hlabel]

/-- The next line is indented deeper if it is that of a node. -/
theorem any_deeper (ht : PlainLabels t) :
    ((linesAt (depth + 1) t ++ rest).head?.any fun next => 2 * depth < indentOf next) =
      (!t.isEmpty || rest.head?.any fun next => 2 * depth < indentOf next) := by
  cases t with
  | empty => rfl
  | node label level a b c d =>
    have hlabel : Plain label.toList := ht label (by simp [Tree.postorder])
    simp [linesAt, indentOf_lineAt hlabel, Tree.isEmpty_node]

/-- The rows read off the lines of a tree with plain labels are those that the tree asks for. -/
theorem outlineRows_linesAt (ht : PlainLabels t)
    (hr : ∀ line ∈ rest.head?, indentOf line ≤ 2 * depth) :
    outlineRows (linesAt depth t ++ rest) = mirror depth t ++ outlineRows rest := by
  induction t generalizing depth rest with
  | empty => rfl
  | node label level a b c d iha ihb ihc ihd =>
    simp only [PlainLabels, Tree.postorder, List.forall_mem_append, List.forall_mem_singleton] at ht
    obtain ⟨⟨⟨⟨ha, hb⟩, hc⟩, hd⟩, hlabel⟩ := ht
    have hrest : ∀ line ∈ rest.head?, indentOf line ≤ 2 * (depth + 1) := fun line hl =>
      Nat.le_trans (hr line hl) (by omega)
    have hrest' : (rest.head?.any fun next => 2 * depth < indentOf next) = false := by
      cases hl : rest.head? with
      | none => rfl
      | some line => simpa using hr line hl
    -- what stands behind each of the slots
    have hwd := indent_head_le hd hrest
    have hwc := indent_head_le hc hwd
    have hwb := indent_head_le hb hwc
    have hleaf : (Tree.node label level a b c d).isLeaf =
        (a.isEmpty && (b.isEmpty && (c.isEmpty && d.isEmpty))) := by
      simp [Tree.isLeaf, Tree.slots]
    rw [linesAt, mirror, List.cons_append, List.cons_append, outlineRows]
    simp only [List.append_assoc, indentOf_lineAt hlabel, trimmedLeft_lineAt hlabel]
    rw [iha ha hwb, ihb hb hwc, ihc hc hwd, ihd hd hrest, any_deeper ha, any_deeper hb,
      any_deeper hc, any_deeper hd, hrest', hleaf]
    simp

/-- No row has a label that starts with white space. -/
theorem plain_outlineRows (lines : List (List Char)) :
    ∀ row ∈ outlineRows lines, Plain row.label := by
  induction lines with
  | nil => simp [outlineRows]
  | cons line lines ih =>
    exact List.forall_mem_cons.2 ⟨fun c hc => Text.eq_false_of_mem_head?_dropWhile hc, ih⟩

theorem exists_row_of_label (depth : Nat) {label : String} (h : label ∈ t.postorder) :
    ∃ row ∈ mirror depth t, row.label = label.toList := by
  induction t generalizing depth with
  | empty => cases h
  | node l level a b c d iha ihb ihc ihd =>
    simp only [Tree.postorder, List.mem_append, List.mem_singleton] at h
    simp only [mirror, List.mem_cons, List.mem_append]
    obtain (((h | h) | h) | h) | rfl := h
    · obtain ⟨row, hm, hl⟩ := iha (depth + 1) h
      exact ⟨row, by simp [hm], hl⟩
    · obtain ⟨row, hm, hl⟩ := ihb (depth + 1) h
      exact ⟨row, by simp [hm], hl⟩
    · obtain ⟨row, hm, hl⟩ := ihc (depth + 1) h
      exact ⟨row, by simp [hm], hl⟩
    · obtain ⟨row, hm, hl⟩ := ihd (depth + 1) h
      exact ⟨row, by simp [hm], hl⟩
    · exact ⟨_, .inl rfl, rfl⟩

/-- The outline of a source with a tree is that of the lines of the tree. -/
theorem outline_of_root {source : String} {root : Tree} (h : (analyze source).root = some root) :
    (ofAnalysis source (analyze source)).outline = some (outlineRows (linesAt 0 root)) := by
  obtain ⟨⟨hne, -⟩, -⟩ := root_labelled h
  obtain ⟨last, tree, -, -, rfl⟩ := exists_after_of_root h
  rw [outline, ofAnalysis]
  simp only [h, Option.map_some]
  rw [outline_withLevels ((tree.isEmpty_withLevels 1).symm.trans hne)]

/-- The outline of a source is that of its tree, row by row, if and only if no label starts with
white space; and a label that does is the character of a literal in the source. -/
theorem outline_eq_mirror_iff {source : String} {root : Tree}
    (h : (analyze source).root = some root) :
    ((ofAnalysis source (analyze source)).outline = some (mirror 0 root) ↔
        ∀ label ∈ root.postorder, Plain label.toList) ∧
      ∀ label ∈ root.postorder, ¬Plain label.toList → ∃ c < 128, label = (Value.char c).text ∧
        ∃ e ∈ (parse source).events, e.rule = .literal (.char c) := by
  refine ⟨⟨fun ho label hm => ?_, fun hp => ?_⟩, fun label hm hp => ?_⟩
  · rw [outline_of_root h, Option.some.injEq] at ho
    obtain ⟨row, hrow, hlabel⟩ := exists_row_of_label 0 hm
    rw [← hlabel]
    exact plain_outlineRows _ row (ho ▸ hrow)
  · have hrows := @outlineRows_linesAt root 0 [] hp (by simp)
    rw [List.append_nil] at hrows
    rw [outline_of_root h, hrows, outlineRows, List.append_nil]
  · rw [← Tree.map_fst_marks, List.mem_map] at hm
    obtain ⟨mark, hm, rfl⟩ := hm
    cases (root_labelled h).2 mark hm with
    | word hw => exact (hp hw.plain).elim
    | declared hn =>
      refine (hp fun c hc => ?_).elim
      rw [String.toList_append] at hc
      obtain rfl : 'D' = c := Option.some.inj hc
      decide
    | char hc he => exact ⟨_, hc, rfl, he⟩

/-- The row of a blank literal is indented too deep and empty, and the row in front of it seems to
have a child. -/
theorem outline_of_blank_literal : ∃ root, (analyze "char x = ' ';").root = some root ∧
    (ofAnalysis "char x = ' ';" (analyze "char x = ' ';")).outline =
      some [⟨0, ['='], true⟩, ⟨2, ['x'], true⟩, ⟨3, [], false⟩] ∧
    mirror 0 root = [⟨0, ['='], true⟩, ⟨2, ['x'], false⟩, ⟨2, [' '], false⟩] := by
  have hr : (analyze "char x = ' ';").root =
      some (.node "=" 1 (.node "x" 2 .empty .empty .empty .empty)
        (.node " " 2 .empty .empty .empty .empty) .empty .empty) := by cbv
  exact ⟨_, hr, by cbv, by cbv⟩

/-- The literal is no blank, and the outline is right. -/
theorem outline_of_plain_literal : ∃ root,
    (analyze "int f()\x7bif(1)return 'a';\x7d").root = some root ∧
    (ofAnalysis "int f()\x7bif(1)return 'a';\x7d"
      (analyze "int f()\x7bif(1)return 'a';\x7d")).outline = some (mirror 0 root) := by
  have hr : (analyze "int f()\x7bif(1)return 'a';\x7d").root =
      some (.node "f" 1 (.node "if" 2 (.node "1" 3 .empty .empty .empty .empty)
        (.node "return" 3 (.node "a" 4 .empty .empty .empty .empty) .empty .empty .empty)
        .empty .empty) .empty .empty .empty) := by cbv
  refine ⟨_, hr, (outline_eq_mirror_iff hr).1.2 ?_⟩
  simp [Tree.postorder, Plain]
  decide

end Viewer

end MiniC
