import MiniC.Proofs.Effect

/-!
# The trees are the events in postorder

A `Mark` is the label of a node with the number of its children, and `Tree.marks` are those of a
tree, a node behind its children. What an event does to the trees on the stack is told by their
marks alone : it puts its own mark behind those of the trees it combines (`Rule.combine`). Two
problems of a binary operator do something else, and `Rule.edit` says what : of a division by zero a
leaf stays, and of an invalid remainder the left operand.

So the marks on the stack are those of the events in their order, as long as there is no such
problem (`Analyzer.trees_of_after`). The marks tell the label and the number of children of every
node, and a tree that is `Tree.Packed` has its children in its first slots.
-/

namespace MiniC

/-- The label of a node and the number of its children. -/
abbrev Mark := String × Nat

/-! ## Trees -/

namespace Tree

/-- The label and the number of children of every node, a node behind its children. -/
def marks : Tree → List Mark
  | empty => []
  | node label level a b c d =>
    a.marks ++ b.marks ++ c.marks ++ d.marks ++ [(label, (node label level a b c d).children.length)]

/-- At every node, the children fill the first slots. -/
def Packed : Tree → Prop
  | empty => True
  | node _ _ a b c d =>
    (a.isEmpty → b.isEmpty) ∧ (b.isEmpty → c.isEmpty) ∧ (c.isEmpty → d.isEmpty) ∧
      a.Packed ∧ b.Packed ∧ c.Packed ∧ d.Packed

/-- The labels are those of the postorder. -/
theorem map_fst_marks (t : Tree) : t.marks.map Prod.fst = t.postorder := by
  induction t with
  | empty => rfl
  | node label level a b c d iha ihb ihc ihd => simp [marks, postorder, iha, ihb, ihc, ihd]

/-- A tree that stands on the stack : a node, with its children in its first slots everywhere. -/
def Finished (t : Tree) : Prop := t.isEmpty = false ∧ t.Packed

theorem isEmpty_empty : empty.isEmpty = true := rfl

theorem isEmpty_node (label : String) (level : Nat) (a b c d : Tree) :
    (node label level a b c d).isEmpty = false := rfl

/-- A node over at most four finished trees is finished, and its mark stands behind theirs. -/
theorem ofChildren_finished (label : String) {ts : List Tree} (hl : ts.length ≤ 4)
    (h : ∀ t ∈ ts, t.Finished) : (ofChildren label ts).Finished ∧
      (ofChildren label ts).marks = ts.flatMap marks ++ [(label, ts.length)] := by
  match ts with
  | [] | [a] | [a, b] | [a, b, c] | [a, b, c, d] =>
    simp only [List.forall_mem_cons, Finished] at h
    simp [ofChildren, Finished, isEmpty_node, isEmpty_empty, Packed, marks, children, slots, h]
  | a :: b :: c :: d :: e :: ts =>
    simp only [List.length_cons] at hl
    omega

/-- A node over at most four trees has them in its slots, and nothing else. -/
theorem flatMap_slots_ofChildren {α : Type} (label : String) {ts : List Tree} (hl : ts.length ≤ 4)
    {f : Tree → List α} (hf : f empty = []) :
    (ofChildren label ts).slots.flatMap f = ts.flatMap f := by
  match ts with
  | [] | [a] | [a, b] | [a, b, c] | [a, b, c, d] => simp [ofChildren, slots, hf]
  | a :: b :: c :: d :: e :: ts =>
    simp only [List.length_cons] at hl
    omega

end Tree

/-! ## What an event does -/

/-- The marks of one tree on the stack. -/
abbrev Segment := List Mark

namespace Rule

/-- The mark of the subtree that a rule finishes. -/
def mark? (r : Rule) : Option Mark := r.label?.map fun label => (label, r.arity)

/-- The trees behind a rule that makes one of the latest ones : a node over as many as it combines,
with the oldest one in the first slot. -/
def build (r : Rule) (ts : List Tree) : List Tree :=
  match r.label? with
  | some label => .ofChildren label (ts.take r.arity).reverse :: ts.drop r.arity
  | none => ts

/-- The segments behind a rule that combines the latest ones : theirs from the oldest to the latest,
and then its mark. -/
def combine (r : Rule) (segments : List Segment) : List Segment :=
  match r.mark? with
  | some mark => ((segments.take r.arity).reverse.flatten ++ [mark]) :: segments.drop r.arity
  | none => segments

theorem arity_le_four (r : Rule) : r.arity ≤ 4 := by
  cases r with
  | returned value => cases value <;> decide
  | _ => simp [arity]

/-- The segments behind an event that found the problems. A division by zero leaves one leaf in the
place of both operands, and of an invalid remainder the right operand goes. -/
def edit : Rule → List Problem → List Segment → List Segment
  | binary _, [.divisionByZero], _right :: _left :: segments => [("2147483647", 0)] :: segments
  | binary _, [.invalidOperands _ _], _right :: segments => segments
  | r, _, segments => r.combine segments

end Rule

namespace Analyzer

/-- The segments of the trees on the stack, that of the latest tree first. -/
def segments (a : Analyzer) : List Segment := a.trees.trees.map Tree.marks

/-- The problems that `b` has found since `a`. -/
def found (a b : Analyzer) : List Problem :=
  (b.diagnostics.drop a.diagnostics.length).map Diagnostic.problem

/-- The segments behind the events, which find `segments` and are applied from the state `a` on. -/
def assemble (a : Analyzer) : List Event → List Segment → List Segment
  | [], segments => segments
  | event :: events, segments =>
    match a.apply event with
    | .ok b => b.assemble events (event.rule.edit (a.found b) segments)
    | .error _ => segments

/-- The event is a binary operator that divides by a known zero or has an invalid remainder. -/
def Elides (a : Analyzer) (event : Event) : Prop :=
  ∃ op b, event.rule = .binary op ∧ a.apply event = .ok b ∧
    (a.found b = [.divisionByZero] ∨ ∃ l r, a.found b = [.invalidOperands l r])

/-- All trees on the stack are finished. -/
def AllFinished (a : Analyzer) : Prop := ∀ t ∈ a.trees.trees, t.Finished

variable {a b z : Analyzer} {event : Event} {events : List Event}

/-! ## The trees behind an event -/

theorem found_of_eq (h : b.diagnostics = a.diagnostics) : a.found b = [] := by
  rw [found, h, List.drop_length, List.map_nil]

theorem found_of_report {line : Nat} {problem : Problem}
    (h : b.diagnostics = (a.report line problem).diagnostics) : a.found b = [problem] := by
  rw [found, h, report, List.drop_left]
  rfl

theorem text_divisionSentinel : divisionSentinel.text = "2147483647" := by decide

theorem trees_node {label : String} {arity : Nat} {operand : Operand}
    (h : a.node label arity operand = .ok b) : arity ≤ a.stackDepth ∧
      b.trees.trees =
        .ofChildren label (a.trees.trees.take arity).reverse :: a.trees.trees.drop arity := by
  obtain ⟨-, hn, rfl⟩ := node_eq_ok_iff.1 h
  exact ⟨hn, rfl⟩

theorem trees_discard {label : String} {count : Nat} (h : a.discard label count = .ok b) :
    count ≤ a.stackDepth ∧ b.trees.trees = a.trees.trees.drop count := by
  obtain ⟨hn, rfl⟩ := discard_eq_ok_iff.1 h
  exact ⟨hn, rfl⟩

/-- The event combines the latest trees. -/
def Builds (a : Analyzer) (event : Event) (b : Analyzer) : Prop :=
  event.rule.arity ≤ a.stackDepth ∧ b.trees.trees = event.rule.build a.trees.trees

theorem builds_node {rule : Rule} {loc : Location} {label : String} {operand : Operand}
    (hl : rule.label? = some label) (h : a.node label rule.arity operand = .ok b) :
    Builds a ⟨rule, loc⟩ b := by
  obtain ⟨hn, ht⟩ := trees_node h
  exact ⟨hn, by rw [ht, Rule.build, hl]⟩

theorem Builds.of_eq {c : Analyzer} (h : Builds c event b) (hc : c.trees = a.trees) :
    Builds a event b := by
  unfold Builds at h ⊢
  rwa [stackDepth_eq, hc] at h

theorem builds_leaf {c : Analyzer} {rule : Rule} {loc : Location} {label : String}
    (hl : rule.label? = some label) (hn : rule.arity = 0) (hc : c.trees = a.trees)
    (operand : Operand) : Builds a ⟨rule, loc⟩ (c.leaf label operand) := by
  refine .of_eq (c := c) ⟨by rw [hn]; exact Nat.zero_le _, ?_⟩ hc
  rw [Rule.build, hl, hn]
  rfl

/-- A rule without a tree of its own leaves the trees alone. -/
theorem builds_idle {rule : Rule} {loc : Location} (hl : rule.label? = none) (hn : rule.arity = 0)
    (hb : b.trees = a.trees) : Builds a ⟨rule, loc⟩ b := by
  refine ⟨by rw [hn]; exact Nat.zero_le _, ?_⟩
  rw [Rule.build, hl, hb]

theorem builds_store {rule : Rule} {loc : Location} {label : String} {id : SymbolId}
    {type : DataType} {source : Operand} {line : Nat} (hl : rule.label? = some label)
    (hn : rule.arity = 2) (h : a.store label id type source line = .ok b) :
    Builds a ⟨rule, loc⟩ b := by
  unfold store at h
  rw [← hn] at h
  exact (builds_node hl h).of_eq (stacks_warnNarrowing ..).1

theorem builds_initDeclarator {name : String} {loc : Location}
    (h : a.initDeclarator loc.line = .ok b) : Builds a ⟨.initDeclarator name, loc⟩ b := by
  unfold initDeclarator at h
  split at h
  · dsimp only at h
    split at h
    · exact builds_node rfl h
    · have hb : Builds _ ⟨.initDeclarator name, loc⟩ b := builds_node rfl h
      exact hb.of_eq rfl
    · have hb : Builds _ ⟨.initDeclarator name, loc⟩ b := builds_store rfl rfl h
      exact hb.of_eq rfl
  · cases h

theorem builds_assignTo {op : AssignOp} {id : SymbolId} {source : Operand} {loc : Location}
    (h : a.assignTo op id source loc.line = .ok b) : Builds a ⟨.assign op, loc⟩ b := by
  unfold assignTo at h
  split at h
  · exact builds_store rfl rfl h
  · exact builds_node rfl h

theorem builds_assign {op : AssignOp} {loc : Location} (h : a.assign op loc.line = .ok b) :
    Builds a ⟨.assign op, loc⟩ b := by
  unfold assign at h
  split at h
  · split at h
    · have hb : Builds _ ⟨.assign op, loc⟩ b := builds_node rfl h
      exact hb.of_eq rfl
    · split at h
      · exact builds_assignTo h
      · exact (builds_assignTo h).of_eq (stacks_compoundSource ..).1
  · cases h

/-- What becomes of the trees when an event leads from `a` to `b`. -/
inductive Makes (a : Analyzer) (event : Event) (b : Analyzer) : Prop
  | builds (h : Builds a event b) (hq : ∀ op, event.rule = .binary op → a.found b = [])
  /-- Of a division by a known zero a leaf stays. -/
  | division (op : BinaryOp) (hr : event.rule = .binary op) (hd : a.found b = [.divisionByZero])
      (hn : 2 ≤ a.stackDepth)
      (ht : b.trees.trees = .leaf "2147483647" :: a.trees.trees.drop 2)
  /-- Of an invalid remainder the left operand stays. -/
  | remainder (op : BinaryOp) (hr : event.rule = .binary op) (l r : DataType)
      (hd : a.found b = [.invalidOperands l r]) (hn : 1 ≤ a.stackDepth)
      (ht : b.trees.trees = a.trees.trees.drop 1)

theorem makes_binary {op : BinaryOp} {loc : Location} (h : a.binary op loc.line = .ok b) :
    Makes a ⟨.binary op, loc⟩ b := by
  unfold binary at h
  split at h
  · split at h
    · obtain ⟨c, hd, hb⟩ := exists_of_bind_ok h
      obtain rfl := Except.ok.inj hb
      obtain ⟨hn, ht⟩ := trees_discard hd
      obtain ⟨trees, operands, rfl⟩ := exists_of_discard hd
      refine .division op rfl (found_of_report rfl) hn ?_
      rw [← text_divisionSentinel]
      exact congrArg (List.cons _) ht
    · split at h
      · obtain ⟨hn, ht⟩ := trees_discard h
        obtain ⟨trees, operands, rfl⟩ := exists_of_discard h
        exact .remainder _ rfl _ _ (found_of_report rfl) hn ht
      · refine .builds (builds_node rfl h) fun _ _ => ?_
        obtain ⟨trees, operands, rfl⟩ := exists_of_node h
        exact found_of_eq rfl
  · cases h

theorem apply_makes (h : a.apply event = .ok b) : Makes a event b := by
  obtain ⟨rule, loc⟩ := event
  cases rule <;> dsimp only [apply] at h
  case binary op => exact makes_binary h
  all_goals refine .builds ?_ nofun
  case openScope | closeScope | typeSpecifier | declaration =>
    obtain rfl := Except.ok.inj h
    exact builds_idle rfl rfl rfl
  case functionDeclarator name typed =>
    obtain rfl := Except.ok.inj h
    exact builds_idle rfl rfl (by simp [functionDeclarator])
  case parameter name type =>
    obtain rfl := Except.ok.inj h
    exact builds_idle rfl rfl (by simp)
  case functionDefinition name typed =>
    obtain ⟨c, hn, hb⟩ := exists_of_bind_ok h
    obtain rfl := Except.ok.inj hb
    obtain ⟨hle, ht⟩ := trees_node hn
    exact ⟨hle, ht⟩
  case declTarget name =>
    obtain rfl := Except.ok.inj h
    rw [declTarget_eq]
    exact builds_leaf rfl rfl (by simp) _
  case declarator name =>
    obtain rfl := Except.ok.inj h
    rw [declarator_eq]
    exact builds_leaf rfl rfl (by simp) _
  case identifier name =>
    obtain rfl := Except.ok.inj h
    rw [identifier_eq]
    exact builds_leaf rfl rfl (by simp) _
  case literal | emptyStatement | emptyBlock =>
    obtain rfl := Except.ok.inj h
    exact builds_leaf rfl rfl rfl _
  case initDeclarator name => exact builds_initDeclarator h
  case assign op => exact builds_assign h
  case unary | postfixed | ternary | comma =>
    split at h
    · exact builds_node rfl h
    · cases h
  case sequence | ifThen | ifElse | whileLoop | forLoop => exact builds_node rfl h
  case returned value =>
    cases value
    case false =>
      obtain rfl := Except.ok.inj h
      exact builds_leaf rfl rfl rfl _
    case true => exact builds_node rfl h

/-! ## The segments behind an event -/

theorem edit_of_quiet {rule : Rule} {problems : List Problem}
    (h : ∀ op, rule = .binary op → problems = []) (segments : List Segment) :
    rule.edit problems segments = rule.combine segments := by
  unfold Rule.edit
  split
  · exact absurd (h _ rfl) (by simp)
  · exact absurd (h _ rfl) (by simp)
  · rfl

/-- A rule that combines the latest trees combines their segments. -/
theorem Builds.step (h : Builds a event b) (hf : a.AllFinished) :
    b.AllFinished ∧ b.segments = event.rule.combine a.segments := by
  obtain ⟨hn, ht⟩ := h
  unfold AllFinished segments Rule.combine Rule.mark?
  rw [ht, Rule.build]
  cases event.rule.label? with
  | none => exact ⟨hf, rfl⟩
  | some label =>
    have hlen : (a.trees.trees.take event.rule.arity).reverse.length = event.rule.arity := by
      rw [List.length_reverse, List.length_take]
      exact Nat.min_eq_left hn
    have hparts : ∀ t ∈ (a.trees.trees.take event.rule.arity).reverse, t.Finished :=
      fun t hm => hf t (List.mem_of_mem_take (List.mem_reverse.1 hm))
    obtain ⟨hnode, hmarks⟩ :=
      Tree.ofChildren_finished label (Nat.le_trans (Nat.le_of_eq hlen) event.rule.arity_le_four)
        hparts
    refine ⟨List.forall_mem_cons.2 ⟨hnode, fun t hm => hf t (List.mem_of_mem_drop hm)⟩, ?_⟩
    rw [List.map_cons, hmarks, hlen]
    simp [List.flatMap, List.map_take, List.map_drop]

theorem finished_leaf (label : String) : (Tree.leaf label).Finished :=
  have hnone : ∀ t ∈ ([] : List Tree), t.Finished := by simp
  (Tree.ofChildren_finished label (by simp) hnone).1

/-- An event does to the segments what `Rule.edit` says. -/
theorem Makes.step (h : Makes a event b) (hf : a.AllFinished) :
    b.AllFinished ∧ b.segments = event.rule.edit (a.found b) a.segments := by
  cases h with
  | builds h hq =>
    rw [edit_of_quiet hq]
    exact h.step hf
  | division op hr hd hn ht =>
    obtain ⟨right, rest, hright⟩ :=
      List.exists_cons_of_length_pos (Nat.lt_of_lt_of_le Nat.two_pos hn)
    obtain ⟨left, ts, rfl⟩ := List.exists_cons_of_length_pos (l := rest) <| by
      rw [stackDepth_eq, hright] at hn
      exact Nat.lt_of_succ_lt_succ hn
    unfold AllFinished segments at *
    rw [hright] at ht hf
    rw [ht, hright, hr, hd]
    exact ⟨List.forall_mem_cons.2 ⟨finished_leaf _, (List.forall_mem_cons.1
      (List.forall_mem_cons.1 hf).2).2⟩, rfl⟩
  | remainder op hr l r hd hn ht =>
    obtain ⟨right, ts, hright⟩ := List.exists_cons_of_length_pos hn
    unfold AllFinished segments at *
    rw [hright] at ht hf
    rw [ht, hright, hr, hd]
    exact ⟨fun t hm => hf t (List.mem_cons_of_mem right hm), rfl⟩

/-! ## The segments behind a run -/

theorem assemble_cons (hb : a.apply event = .ok b) (segments : List Segment) :
    a.assemble (event :: events) segments =
      b.assemble events (event.rule.edit (a.found b) segments) := by
  rw [assemble, hb]

/-- The segments behind events that can all be applied. -/
theorem segments_of_after (hf : a.AllFinished) (h : a.after events = .ok z) :
    z.AllFinished ∧ z.segments = a.assemble events a.segments := by
  induction events generalizing a with
  | nil =>
    obtain rfl := Except.ok.inj h
    exact ⟨hf, rfl⟩
  | cons event events ih =>
    obtain ⟨b, hb, hz⟩ := exists_of_after_cons h
    obtain ⟨hfb, hs⟩ := (apply_makes hb).step hf
    rw [assemble_cons hb, ← hs]
    exact ih hfb hz

/-- The mark of a rule stands behind all others. -/
theorem flatten_combine (r : Rule) (segments : List Segment) :
    (r.combine segments).reverse.flatten = segments.reverse.flatten ++ r.mark?.toList := by
  unfold Rule.combine
  cases r.mark? with
  | none => simp
  | some mark =>
    have hsplit : segments.reverse.flatten =
        (segments.drop r.arity).reverse.flatten ++ (segments.take r.arity).reverse.flatten := by
      rw [← List.flatten_append, ← List.reverse_append, List.take_append_drop]
    simp [hsplit]

theorem Makes.flatten (h : Makes a event b) (hf : a.AllFinished) (hb : a.apply event = .ok b)
    (hq : ¬a.Elides event) :
    b.segments.reverse.flatten = a.segments.reverse.flatten ++ event.rule.mark?.toList := by
  cases h with
  | builds h _ => rw [(h.step hf).2, flatten_combine]
  | division op hr hd => exact (hq ⟨op, b, hr, hb, .inl hd⟩).elim
  | remainder op hr l r hd => exact (hq ⟨op, b, hr, hb, .inr ⟨l, r, hd⟩⟩).elim

/-- Without an operator that elides operands, the marks are those of the events in their order. -/
theorem flatten_of_after (hf : a.AllFinished) (h : a.after events = .ok z)
    (hq : ∀ before event mid b, events = before ++ event :: mid → a.after before = .ok b →
      ¬b.Elides event) :
    z.segments.reverse.flatten =
      a.segments.reverse.flatten ++ events.filterMap (·.rule.mark?) := by
  induction events generalizing a with
  | nil =>
    obtain rfl := Except.ok.inj h
    simp
  | cons event events ih =>
    obtain ⟨b, hb, hz⟩ := exists_of_after_cons h
    have hm := apply_makes hb
    have hqb : ∀ before event' mid c, events = before ++ event' :: mid → b.after before = .ok c →
        ¬c.Elides event' := fun before event' mid c he hc =>
      hq (event :: before) event' mid c (he ▸ rfl) ((after_cons_of_ok hb before).trans hc)
    rw [ih (hm.step hf).1 hz hqb, hm.flatten hf hb (hq [] event events a rfl rfl)]
    cases hmark : event.rule.mark? <;> simp [hmark]

theorem flatten_segments (a : Analyzer) :
    a.segments.reverse.flatten = a.trees.trees.reverse.flatMap Tree.marks := by
  rw [segments, ← List.map_reverse, List.flatMap]

theorem map_fst_flatMap_marks (ts : List Tree) :
    (ts.flatMap Tree.marks).map Prod.fst = ts.flatMap Tree.postorder := by
  simp [List.map_flatMap, Tree.map_fst_marks]

/-- The trees on the stack are packed, and their marks are what `Rule.edit` makes of the events. As
long as no operator elides operands, these are the marks of the events in order, and the labels of
the trees in postorder are those of the events. -/
theorem trees_of_after (h : start.after events = .ok z) :
    (∀ t ∈ z.trees.trees, t.Packed) ∧ z.segments = start.assemble events [] ∧
      ((∀ before event mid a, events = before ++ event :: mid → start.after before = .ok a →
          ¬a.Elides event) →
        z.trees.trees.reverse.flatMap Tree.marks = events.filterMap (·.rule.mark?) ∧
          z.trees.trees.reverse.flatMap Tree.postorder = events.filterMap (·.rule.label?)) := by
  have hstart : start.AllFinished := by simp [AllFinished, start, TreeStack.empty]
  obtain ⟨hf, hs⟩ := segments_of_after hstart h
  refine ⟨fun t hm => (hf t hm).2, hs, fun hq => ?_⟩
  have hm : z.trees.trees.reverse.flatMap Tree.marks = events.filterMap (·.rule.mark?) := by
    rw [← flatten_segments]
    exact flatten_of_after hstart h hq
  refine ⟨hm, ?_⟩
  have hfst : ∀ r : Rule, r.mark?.map Prod.fst = r.label? := fun r => by
    rw [Rule.mark?]
    cases r.label? <;> rfl
  rw [← map_fst_flatMap_marks, hm, List.map_filterMap]
  simp only [hfst]

/-- A division by zero leaves a leaf, which the statement behind it is joined to. -/
theorem segments_of_division_by_zero :
    ∃ z, start.after [⟨.literal (.int 1), ⟨1, 1⟩⟩, ⟨.literal (.int 0), ⟨1, 5⟩⟩,
        ⟨.binary .div, ⟨1, 3⟩⟩, ⟨.literal (.int 3), ⟨2, 1⟩⟩, ⟨.sequence, ⟨2, 1⟩⟩] = .ok z ∧
      z.segments = [[("2147483647", 0), ("3", 0), ("stmt", 2)]] := by
  obtain ⟨z, hz⟩ : ∃ z, start.after [⟨.literal (.int 1), ⟨1, 1⟩⟩, ⟨.literal (.int 0), ⟨1, 5⟩⟩,
      ⟨.binary .div, ⟨1, 3⟩⟩, ⟨.literal (.int 3), ⟨2, 1⟩⟩, ⟨.sequence, ⟨2, 1⟩⟩] = .ok z :=
    ⟨_, rfl⟩
  refine ⟨z, hz, ?_⟩
  rw [(trees_of_after hz).2.1]
  rfl

end Analyzer

end MiniC
