import MiniC.Proofs.Viewer.Marks

/-!
# Scrolling

Keys are pressed and the viewer is drawn, in any order and on a screen of any size (`Viewer.after`).
A key changes one thing at most (`Changes`), and moves the offset of the focused pane to the place
in range that is nearest to where exact arithmetic leads (`Key.target?`, `get_press`). Offsets
beyond what a pane has to show are only brought back when it is drawn, and only if it has a list.
Then the list fills the pane from the offset on, or is shown whole (`Settles`), and drawing once
more changes nothing.
-/

namespace MiniC

namespace Viewer

/-! ## What a pane shows -/

/-- The rows of a pane that has a list, those in front of its window and behind it included. -/
def rows? (v : Viewer) : Pane → Option (List Row)
  | .source => some v.sourceRows
  | .symbols =>
    if v.analysis.report.isEmpty then none
    else some (v.analysis.report.rows.map fun r =>
      tableRow v.analysis.report.columnWidths r.cells (cellStyles r.kind))
  | .tree => v.outline.map (·.map treeRow)
  | .diagnostics =>
    if v.analysis.diagnostics.isEmpty then none
    else some (v.analysis.diagnostics.map diagnosticRow)

/-- There is one row for each entry. -/
theorem map_length_rows? (v : Viewer) (pane : Pane) :
    (v.rows? pane).map List.length = v.entries? pane := by
  cases pane with
  | source => simp [rows?, entries?, sourceRows]
  | tree => simp [rows?, entries?, Option.map_map, Function.comp_def]
  | symbols | diagnostics =>
    simp only [rows?, entries?]
    split <;> simp

/-- The screen of one pane. -/
def drawPane (v : Viewer) (layout : Layout) : Pane → List Row
  | .source => sourcePane v layout
  | .symbols => symbolsPane v layout
  | .tree => treePane v layout
  | .diagnostics => diagnosticsPane v layout

/-- A pane with a list shows its window inside the border, under a header row if it is the pane of
the symbols. -/
theorem drawPane_eq {v : Viewer} {pane : Pane} {rows : List Row} (h : v.rows? pane = some rows)
    (layout : Layout) : ∃ title border base width header,
      header.length = (if pane = .symbols then 1 else 0) ∧
      v.drawPane layout pane = boxed title border base width (layout.height pane)
        (header ++ window (v.scroll.get pane) (layout.visible pane) rows) := by
  cases pane with
  | source =>
    obtain rfl := Option.some.inj h
    exact ⟨_, _, _, _, [], rfl, sourcePane_eq v layout⟩
  | symbols =>
    simp only [rows?, Option.ite_none_left_eq_some, Option.some.injEq] at h
    obtain ⟨hne, rfl⟩ := h
    simp only [drawPane, symbolsPane, if_neg hne, window, ← List.map_drop, ← List.map_take]
    exact ⟨_, _, _, _, [_], rfl, rfl⟩
  | tree =>
    obtain ⟨outline, ho, rfl⟩ := Option.map_eq_some_iff.1 h
    simp only [drawPane, treePane, ho, window, ← List.map_drop, ← List.map_take]
    exact ⟨_, _, _, _, [], rfl, rfl⟩
  | diagnostics =>
    simp only [rows?, Option.ite_none_left_eq_some, Option.some.injEq] at h
    obtain ⟨hne, rfl⟩ := h
    simp only [drawPane, diagnosticsPane, if_neg hne, window, ← List.map_drop, ← List.map_take]
    exact ⟨_, _, _, _, [], rfl, rfl⟩

/-- A window that fits behind its offset is full. -/
theorem length_window {α : Type} (offset visible : Nat) (entries : List α) :
    (window offset visible entries).length = min visible (entries.length - offset) := by
  rw [window, List.length_take, List.length_drop]

/-- A window is entries that follow one another. -/
theorem window_infix {α : Type} (offset visible : Nat) (entries : List α) :
    window offset visible entries <:+: entries :=
  (List.take_prefix _ _).isInfix.trans (List.drop_suffix _ _).isInfix

/-! ## Keys -/

/-- No offset is beyond the limit. -/
def InRange (v : Viewer) : Prop := ∀ pane, v.scroll.get pane ≤ Scroll.limit

/-- Where a key leads from the offset `n`, if it scrolls. -/
def Key.target? (n : Int) : Key → Option Int
  | .up => some (n - 1)
  | .down => some (n + 1)
  | .pageUp => some (n - 10)
  | .pageDown => some (n + 10)
  | .home => some 0
  | .endKey => some Scroll.limit
  | .tab | .escape | .char _ | .other => none

/-- The viewer `w` is `v` but for the offset of the focused pane, or for the focus, or for the wish
to leave. -/
inductive Changes (v : Viewer) : Viewer → Prop
  | offset (n : Nat) : Changes v { v with scroll := v.scroll.modify v.focus fun _ => n }
  | focus (pane : Pane) : Changes v { v with focus := pane }
  | quit : Changes v { v with quit := true }

theorem changes_refl (v : Viewer) : v.Changes v := .focus v.focus

/-- The other panes stay where they are. -/
theorem Changes.get_of_ne {v w : Viewer} (h : v.Changes w) {pane : Pane} (hp : pane ≠ v.focus) :
    w.scroll.get pane = v.scroll.get pane := by
  cases h with
  | offset n => exact (Scroll.get_modify ..).trans (if_neg hp)
  | focus | quit => rfl

/-- A key changes one thing at most. -/
theorem changes_press (v : Viewer) (k : Key) : v.Changes (v.press k) := by
  have hscroll (f : Nat → Nat) : v.Changes (v.scrolled f) := by
    have h : v.scroll.modify v.focus f =
        v.scroll.modify v.focus fun _ => f (v.scroll.get v.focus) := by
      cases v.focus <;> rfl
    rw [scrolled, h]
    exact .offset _
  cases k with
  | tab => exact .focus _
  | up | down | pageUp | pageDown | home | endKey => exact hscroll _
  | escape => exact .quit
  | char c =>
    simp only [press]
    split
    · exact .quit
    · exact changes_refl v
  | other => exact changes_refl v

/-- The offset of the focused pane behind a key. -/
theorem get_scrolled (v : Viewer) (f : Nat → Nat) (pane : Pane) : (v.scrolled f).scroll.get pane =
    if pane = v.focus then f (v.scroll.get pane) else v.scroll.get pane := by
  rw [scrolled, Scroll.get_modify]
  split
  · next h => rw [h]
  · rfl

/-- A key that scrolls leads to the offset in range that is nearest to its target. -/
theorem get_press {v : Viewer} (h : v.InRange) {k : Key} {t : Int}
    (ht : k.target? (v.scroll.get v.focus) = some t) :
    ((v.press k).scroll.get v.focus : Int) = max 0 (min (Scroll.limit : Int) t) := by
  have hn := h v.focus
  cases k with
  | up | down | pageUp | pageDown | home | endKey =>
    obtain rfl := Option.some.inj ht
    simp only [press, get_scrolled, if_true]
    omega
  | tab | escape | char | other => cases ht

/-- Any other key leaves all offsets as they are. -/
theorem scroll_press {v : Viewer} {k : Key} (ht : k.target? (v.scroll.get v.focus) = none) :
    (v.press k).scroll = v.scroll := by
  cases k with
  | up | down | pageUp | pageDown | home | endKey => cases ht
  | tab | escape | other => rfl
  | char c =>
    simp only [press]
    split <;> rfl

theorem inRange_ofAnalysis (source : String) (a : Analysis) : (ofAnalysis source a).InRange := by
  intro pane
  cases pane <;> exact Nat.zero_le _

theorem InRange.press {v : Viewer} (h : v.InRange) (k : Key) : (v.press k).InRange := by
  intro pane
  by_cases hp : pane = v.focus
  · cases ht : k.target? (v.scroll.get v.focus) with
    | none => exact scroll_press ht ▸ h pane
    | some t =>
      have := get_press h ht
      rw [hp]
      omega
  · exact (changes_press v k).get_of_ne hp ▸ h pane

/-! ## Drawing -/

theorem get_drawn (v : Viewer) (layout : Layout) (pane : Pane) :
    (v.drawn layout).scroll.get pane = v.clamped layout pane (v.scroll.get pane) := by
  cases pane <;> rfl

theorem clamp_clamp (total visible n : Nat) :
    clamp total visible (clamp total visible n) = clamp total visible n := by
  unfold clamp
  split <;> omega

theorem clamp_le (total visible n : Nat) : clamp total visible n ≤ n := by
  unfold clamp
  split <;> omega

theorem clamped_le (v : Viewer) (layout : Layout) (pane : Pane) (n : Nat) :
    v.clamped layout pane n ≤ n := by
  unfold clamped
  split
  · exact clamp_le _ _ n
  · exact Nat.le_refl n

theorem clamped_clamped (v : Viewer) (layout : Layout) (pane : Pane) (n : Nat) :
    v.clamped layout pane (v.clamped layout pane n) = v.clamped layout pane n := by
  unfold clamped
  split
  · exact clamp_clamp _ _ n
  · rfl

/-- Drawing again changes nothing. -/
theorem drawn_drawn (v : Viewer) (layout : Layout) :
    (v.drawn layout).drawn layout = v.drawn layout := by
  change ({ v with scroll :=
    { source := v.clamped layout .source (v.clamped layout .source v.scroll.source)
      symbols := v.clamped layout .symbols (v.clamped layout .symbols v.scroll.symbols)
      tree := v.clamped layout .tree (v.clamped layout .tree v.scroll.tree)
      diagnostics := v.clamped layout .diagnostics
        (v.clamped layout .diagnostics v.scroll.diagnostics) } } : Viewer) = v.drawn layout
  simp only [clamped_clamped]
  rfl

theorem InRange.drawn {v : Viewer} (h : v.InRange) (layout : Layout) :
    (v.drawn layout).InRange := fun pane =>
  get_drawn v layout pane ▸ (clamped_le v layout pane _).trans (h pane)

/-- The viewer `w` is `v` after it was drawn in a layout : a pane with a list shows a full window of
it, or all of it, and any other keeps its offset. -/
structure Settles (v : Viewer) (layout : Layout) (w : Viewer) : Prop where
  /-- Nothing but offsets is changed. -/
  frame : w = { v with scroll := w.scroll }
  /-- The offset of a pane with a list leads no further than to its last full window. -/
  offset : ∀ pane rows, w.rows? pane = some rows → (w.scroll.get pane : Int) =
    if layout.visible pane < rows.length then
      min (v.scroll.get pane : Int) (rows.length - layout.visible pane)
    else 0
  /-- The window has as many rows as there are or as there is room for, one behind the other. -/
  full : ∀ pane rows, w.rows? pane = some rows →
    (window (w.scroll.get pane) (layout.visible pane) rows).length =
      min rows.length (layout.visible pane) ∧
    window (w.scroll.get pane) (layout.visible pane) rows <:+: rows
  /-- The window is what the pane shows. -/
  shown : ∀ pane rows, w.rows? pane = some rows → ∃ title border base width header,
    header.length = (if pane = .symbols then 1 else 0) ∧
    w.drawPane layout pane = boxed title border base width (layout.height pane)
      (header ++ window (w.scroll.get pane) (layout.visible pane) rows)
  /-- A pane without a list keeps its offset. -/
  kept : ∀ pane, w.rows? pane = none → w.scroll.get pane = v.scroll.get pane
  /-- Drawing again changes nothing. -/
  again : w.drawn layout = w

theorem rows?_drawn (v : Viewer) (layout : Layout) (pane : Pane) :
    (v.drawn layout).rows? pane = v.rows? pane := by
  cases pane <;> rfl

theorem settles_drawn (v : Viewer) (layout : Layout) : v.Settles layout (v.drawn layout) := by
  have hsome (pane : Pane) (rows : List Row) (h : (v.drawn layout).rows? pane = some rows) :
      (v.drawn layout).scroll.get pane =
        clamp rows.length (layout.visible pane) (v.scroll.get pane) := by
    have he : v.entries? pane = some rows.length := by
      rw [← map_length_rows?, ← rows?_drawn v layout, h]
      rfl
    rw [get_drawn, clamped, he]
  refine ⟨rfl, fun pane rows h => ?_, fun pane rows h => ⟨?_, window_infix ..⟩,
    fun pane rows h => drawPane_eq h layout, fun pane h => ?_, drawn_drawn v layout⟩
  · rw [hsome pane rows h, clamp]
    split <;> omega
  · rw [length_window, hsome pane rows h, clamp]
    split <;> omega
  · have he : v.entries? pane = none := by
      rw [← map_length_rows?, ← rows?_drawn v layout, h]
      rfl
    rw [get_drawn, clamped, he]

/-! ## Runs -/

/-- What happens to a viewer. -/
inductive Step where
  | key (k : Key)
  | draw (layout : Layout)

/-- The viewer after a key or a draw. -/
def step (v : Viewer) : Step → Viewer
  | .key k => v.press k
  | .draw layout => v.drawn layout

/-- The viewer after keys and draws, the first one first. -/
def after (v : Viewer) (steps : List Step) : Viewer := steps.foldl step v

theorem InRange.after {v : Viewer} (h : v.InRange) (steps : List Step) :
    (v.after steps).InRange := by
  induction steps generalizing v with
  | nil => exact h
  | cons s steps ih =>
    cases s with
    | key k => exact ih (h.press k)
    | draw layout => exact ih (h.drawn layout)

/-- At every moment of a run of keys and draws, no offset is beyond the limit; a key changes one
thing at most, and moves the focused pane to the offset in range that is nearest to where exact
arithmetic leads; and drawing, on a screen of any size, leaves every pane with a list at an offset
from which its window is as full as it can be, and every other pane at its own. -/
theorem navigation {v : Viewer} (h : v.InRange) (steps : List Step) :
    (v.after steps).InRange ∧
    (∀ k, (v.after steps).Changes ((v.after steps).press k) ∧
      match k.target? ((v.after steps).scroll.get (v.after steps).focus) with
      | some t => (((v.after steps).press k).scroll.get (v.after steps).focus : Int) =
          max 0 (min (Scroll.limit : Int) t)
      | none => ((v.after steps).press k).scroll = (v.after steps).scroll) ∧
    ∀ layout, (v.after steps).Settles layout ((v.after steps).drawn layout) := by
  refine ⟨h.after steps, fun k => ⟨changes_press _ k, ?_⟩, settles_drawn _⟩
  split
  · next ht => exact get_press (h.after steps) ht
  · next ht => exact scroll_press ht

/-- On a screen with room for one line of the source, the end of three lines is the third. -/
theorem navigation_to_last_line :
    (ofAnalysis "int a;\nint b;\nint c;" (analyze "int a;\nint b;\nint c;")).InRange ∧
    ((ofAnalysis "int a;\nint b;\nint c;" (analyze "int a;\nint b;\nint c;")).after
      [.key .endKey, .draw (.ofSize 80 6)]).scroll.get .source = 2 := by
  have h := inRange_ofAnalysis "int a;\nint b;\nint c;" (analyze "int a;\nint b;\nint c;")
  have hlines : (ofAnalysis "int a;\nint b;\nint c;"
      (analyze "int a;\nint b;\nint c;")).sourceRows.length = 3 := by
    rw [sourceRows, List.length_map, List.length_zipIdx]
    cbv
  have hoffset := ((navigation h [.key .endKey]).2.2 (.ofSize 80 6)).offset .source
    (ofAnalysis "int a;\nint b;\nint c;" (analyze "int a;\nint b;\nint c;")).sourceRows rfl
  have hvisible : (Layout.ofSize 80 6).visible .source = 1 := rfl
  have hmax : ((ofAnalysis "int a;\nint b;\nint c;" (analyze "int a;\nint b;\nint c;")).after
      [.key .endKey]).scroll.get .source = Scroll.limit := rfl
  rw [hvisible, hmax, hlines] at hoffset
  exact ⟨h, Int.ofNat.inj hoffset⟩

end Viewer

end MiniC
