import MiniC.Proofs.Postorder

/-!
# The text form reads back

The text form of a tree is read by one rule : a word is a leaf, and words between parentheses are a
node, of which the first is the label and the others are the children, at least one. `Tree.Reads` is
this rule, for words that are any number of trees one behind the other.

Words read in one way only, and where a tree ends is told by the words alone (`Reads.unique`). The
words of a tree read as this tree if its labels are words themselves and no parentheses
(`reads_words_iff`), and the text form is cut into these words at its blanks (`words_preorder`). So
the text form of such a tree tells its labels and its children (`preorder_reads_back`).
-/

namespace MiniC

/-- The words of a text, which is cut at each of its blanks. -/
def Text.words (text : String) : List String := (text.split ' ').toList.map (·.copy)

/-- The word opens and closes no node. -/
def IsLabel (label : String) : Prop := label ≠ "(" ∧ label ≠ ")"

namespace Tree

/-- The words read as the trees, one behind the other. -/
inductive Reads : List String → List Tree → Prop
  | nil : Reads [] []
  /-- A label alone. -/
  | leaf {label : String} {words : List String} {trees : List Tree} (hl : IsLabel label)
      (h : Reads words trees) : Reads (label :: words) (leaf label :: trees)
  /-- A label and its children between parentheses. -/
  | node {label : String} {inner words : List String} {children trees : List Tree}
      (hl : IsLabel label) (hc : Reads inner children) (hne : children ≠ [])
      (h : Reads words trees) :
    Reads ("(" :: label :: (inner ++ ")" :: words)) (ofChildren label children :: trees)

/-- The tree with level zero at every node. -/
def unnumbered : Tree → Tree
  | empty => empty
  | node label _ a b c d => node label 0 a.unnumbered b.unnumbered c.unnumbered d.unnumbered

/-- Every label is one word and no parenthesis. It can be empty. -/
def Plain (t : Tree) : Prop := ∀ label ∈ t.postorder, ' ' ∉ label.toList ∧ IsLabel label

/-! ## One reading -/

/-- Nothing follows, or the end of a node. -/
def Closes (rest : List String) : Prop := ∀ word ∈ rest.head?, word = ")"

theorem closes_nil : Closes [] := nofun

theorem closes_cons (words : List String) : Closes (")" :: words) := fun _ h =>
  (Option.some.inj h).symm

theorem Closes.ne_cons {rest words : List String} {word : String} (h : Closes rest)
    (hw : word ≠ ")") : rest ≠ word :: words := by
  rintro rfl
  exact hw (h word rfl)

/-- Words that read as trees in front of the end of a node read as no other trees there, and no other
words do. -/
theorem Reads.unique {words words' rest rest' : List String} {trees trees' : List Tree}
    (h : Reads words trees) (h' : Reads words' trees') (hr : Closes rest) (hr' : Closes rest')
    (he : words ++ rest = words' ++ rest') : trees = trees' ∧ rest = rest' := by
  induction h generalizing words' trees' rest rest' with
  | nil =>
    cases h' with
    | nil => exact ⟨rfl, he⟩
    | leaf hl _ => exact (hr.ne_cons hl.2 he).elim
    | node => exact (hr.ne_cons (by decide) he).elim
  | leaf hl _ ih =>
    cases h' with
    | nil => exact (hr'.ne_cons hl.2 he.symm).elim
    | leaf hl' h' =>
      obtain ⟨hlabel, he⟩ := List.cons.inj he
      obtain ⟨htrees, hrest⟩ := ih h' hr hr' he
      exact ⟨by rw [hlabel, htrees], hrest⟩
    | node => exact (hl.1 (List.cons.inj he).1).elim
  | node hl _ hne _ ihc ih =>
    cases h' with
    | nil => exact (hr'.ne_cons (by decide) he.symm).elim
    | leaf hl' _ => exact (hl'.1 (List.cons.inj he).1.symm).elim
    | node hl' hc' hne' h' =>
      simp only [List.cons_append, List.append_assoc, List.cons.injEq, true_and] at he
      obtain ⟨hlabel, he⟩ := he
      -- the children end where the node does
      obtain ⟨hchildren, he⟩ := ihc hc' (closes_cons _) (closes_cons _) he
      obtain ⟨htrees, hrest⟩ := ih h' hr hr' (List.cons.inj he).2
      exact ⟨by rw [hlabel, hchildren, htrees], hrest⟩

/-! ## The words of a tree -/

variable {t a b c d : Tree} {label : String} {level : Nat}

theorem unnumbered_eq_empty (h : t.isEmpty = true) : t.unnumbered = empty := by
  cases t with
  | empty => rfl
  | node => cases h

/-- A node is told by its label and its children, whatever its level. -/
theorem ofChildren_children (h : (node label level a b c d).Packed) :
    ofChildren label ((node label level a b c d).children.map unnumbered) =
      (node label level a b c d).unnumbered := by
  obtain ⟨hab, hbc, hcd, -⟩ := h
  rw [children, slots, unnumbered]
  cases ha : a.isEmpty with
  | true =>
    have hb := hab ha
    have hc := hbc hb
    have hd := hcd hc
    simp [ha, hb, hc, hd, ofChildren, unnumbered_eq_empty]
  | false =>
    cases hb : b.isEmpty with
    | true =>
      have hc := hbc hb
      have hd := hcd hc
      simp [ha, hb, hc, hd, ofChildren, unnumbered_eq_empty]
    | false =>
      cases hc : c.isEmpty with
      | true => simp [ha, hb, hc, hcd hc, ofChildren, unnumbered_eq_empty]
      | false => cases hd : d.isEmpty <;> simp [ha, hb, hc, hd, ofChildren, unnumbered_eq_empty]

theorem Plain.slots (h : (node label level a b c d).Plain) :
    (' ' ∉ label.toList ∧ IsLabel label) ∧ a.Plain ∧ b.Plain ∧ c.Plain ∧ d.Plain := by
  simp only [Plain, postorder, List.forall_mem_append, List.forall_mem_singleton] at h
  obtain ⟨⟨⟨⟨ha, hb⟩, hc⟩, hd⟩, hl⟩ := h
  exact ⟨hl, ha, hb, hc, hd⟩

/-- The tree in a slot without its levels, if there is one. -/
def filled (t : Tree) : List Tree := ([t].filter fun c => !c.isEmpty).map unnumbered

theorem filled_eq (h : t.isEmpty = false) : t.filled = [t.unnumbered] := by
  simp [filled, h]

theorem map_unnumbered_children (label : String) (level : Nat) (a b c d : Tree) :
    (node label level a b c d).children.map unnumbered =
      a.filled ++ (b.filled ++ (c.filled ++ d.filled)) := by
  simp only [filled, ← List.map_append, ← List.filter_append]
  rfl

theorem unnumbered_leaf (h : (node label level a b c d).isLeaf = true) :
    (node label level a b c d).unnumbered = leaf label := by
  obtain ⟨ha, hb, hc, hd⟩ : a.isEmpty = true ∧ b.isEmpty = true ∧ c.isEmpty = true ∧
      d.isEmpty = true := by simpa [isLeaf, Tree.slots] using h
  simp only [unnumbered, unnumbered_eq_empty, ha, hb, hc, hd, leaf]

/-- The words of a tree read as this tree, in front of words that read as trees. -/
theorem Reads.words_append {words : List String} {trees : List Tree} (h : Reads words trees)
    (hp : t.Packed) (hl : t.Plain) : Reads (t.words ++ words) (t.filled ++ trees) := by
  induction t generalizing words trees with
  | empty => exact h
  | node label level a b c d iha ihb ihc ihd =>
    obtain ⟨⟨-, hlabel⟩, hla, hlb, hlc, hld⟩ := hl.slots
    obtain ⟨-, -, -, hpa, hpb, hpc, hpd⟩ := id hp
    rw [filled_eq rfl, Tree.words]
    by_cases hleaf : (Tree.node label level a b c d).isLeaf = true
    · rw [if_pos hleaf, unnumbered_leaf hleaf]
      exact .leaf hlabel h
    · rw [if_neg hleaf, ← ofChildren_children hp]
      have hinner := iha (ihb (ihc (ihd .nil hpd hld) hpc hlc) hpb hlb) hpa hla
      simp only [List.append_nil] at hinner
      rw [← map_unnumbered_children label level] at hinner
      have hne : (Tree.node label level a b c d).children.map unnumbered ≠ [] := by
        simpa [children, isLeaf] using hleaf
      simpa using hinner.node hlabel hne h

/-! ## The text form -/

theorem not_mem_words (h : t.Plain) : ∀ word ∈ t.words, ' ' ∉ word.toList := by
  induction t with
  | empty => simp [Tree.words]
  | node label level a b c d iha ihb ihc ihd =>
    obtain ⟨⟨hlabel, -⟩, ha, hb, hc, hd⟩ := h.slots
    rw [Tree.words]
    split
    · simpa using hlabel
    · simp only [List.forall_mem_cons, List.forall_mem_append]
      exact ⟨by decide, hlabel, ⟨⟨⟨iha ha, ihb hb⟩, ihc hc⟩, ihd hd⟩, by decide, by simp⟩

/-- The words of the text form are those of the tree. -/
theorem words_preorder (hne : t.isEmpty = false) (h : t.Plain) :
    Text.words t.preorder = t.words := by
  have hw : t.words ≠ [] := by
    cases t with
    | empty => cases hne
    | node => rw [Tree.words]; split <;> simp
  exact (String.toList_split_intercalate (not_mem_words h)).trans (if_neg hw)

theorem reads_words_iff (hf : t.Finished) (hl : t.Plain) {trees : List Tree} :
    Reads t.words trees ↔ trees = [t.unnumbered] := by
  have ht : Reads t.words [t.unnumbered] := by
    simpa [filled_eq hf.1] using Reads.nil.words_append hf.2 hl
  constructor
  · exact fun h => (h.unique ht closes_nil closes_nil rfl).1
  · rintro rfl
    exact ht

/-- The text form of a tree whose labels are words other than the parentheses reads as this tree,
whatever its levels, and as nothing else. So two such trees with the same text form have the same
labels in the same slots. -/
theorem preorder_reads_back {t : Tree} (hf : t.Finished) (hl : t.Plain) :
    (∀ trees, Reads (Text.words t.preorder) trees ↔ trees = [t.unnumbered]) ∧
      ∀ u : Tree, u.Finished → u.Plain → u.preorder = t.preorder →
        u.unnumbered = t.unnumbered := by
  have hread {u : Tree} (hf : u.Finished) (hl : u.Plain) (trees : List Tree) :
      Reads (Text.words u.preorder) trees ↔ trees = [u.unnumbered] := by
    rw [words_preorder hf.1 hl, reads_words_iff hf hl]
  refine ⟨hread hf hl, fun u hfu hlu he => ?_⟩
  have hu := (hread hfu hlu [u.unnumbered]).2 rfl
  rw [he, hread hf hl] at hu
  exact List.singleton_inj.1 hu

/-- A loop with all its clauses, at two levels. -/
theorem loop_reads_back : ∃ t u : Tree, (t.Finished ∧ t.Plain) ∧ (u.Finished ∧ u.Plain) ∧
    t.level = 1 ∧ u.level = 5 ∧ t.preorder = "( for ; ( < i n ) ( ++ i ) \x7b\x7d )" ∧
    u.preorder = t.preorder ∧
    (∀ trees, Reads (Text.words t.preorder) trees ↔ trees = [t.unnumbered]) ∧
    u.unnumbered = t.unnumbered := by
  let t := node "for" 1 (leaf ";") (node "<" 2 (leaf "i") (leaf "n") empty empty)
    (node "++" 2 (leaf "i") empty empty empty) (leaf "\x7b\x7d")
  have ht : t.Finished ∧ t.Plain := by
    simp [t, Finished, Packed, Plain, IsLabel, isEmpty, leaf, postorder]
  have hu : (t.withLevels 5).Finished ∧ (t.withLevels 5).Plain := by
    simp [t, Finished, Packed, Plain, IsLabel, isEmpty, leaf, postorder, withLevels]
  have hp : (t.withLevels 5).preorder = t.preorder := by cbv
  obtain ⟨hread, heq⟩ := preorder_reads_back ht.1 ht.2
  exact ⟨t, t.withLevels 5, ht, hu, rfl, rfl, by cbv, hp, hread, heq _ hu.1 hu.2 hp⟩

end Tree

end MiniC
