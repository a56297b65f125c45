import MiniC.Proofs.Labels

/-!
# The text form tells the tree

The text form of a tree puts blanks between its labels and parentheses around its inner nodes. A
label can be mistaken for what it is not in two ways : a literal can be a parenthesis, and the two
words of a declared name `Dc x` can be two leaves, the first of them a variable called `Dc`. A tree
without either is `Tree.Legible`, and two legible trees of sources with the same text form are the
same tree (`preorder_injective`).

The text is first cut into its pieces, which are the words of the labels (`eq_of_spaced_eq`), and
these are then read from the front, where every tree stands before something that it cannot go on
with (`Tree.Ends`).
-/

namespace MiniC

/-! ## Pieces -/

/-- A piece of the text form : a blank alone, or what has no blank in it. -/
def IsPiece (p : List Char) : Prop := p = [' '] ∨ p ≠ [] ∧ ' ' ∉ p

/-- The pieces with a blank in front of each. -/
def spaced (ps : List (List Char)) : List Char := ps.flatMap (' ' :: ·)

theorem spaced_cons (p : List Char) (ps : List (List Char)) :
    spaced (p :: ps) = ' ' :: (p ++ spaced ps) := rfl

theorem spaced_append (ps qs : List (List Char)) : spaced (ps ++ qs) = spaced ps ++ spaced qs :=
  List.flatMap_append

theorem spaced_eq_nil_or (ps : List (List Char)) :
    spaced ps = [] ∨ ∃ cs, spaced ps = ' ' :: cs := by
  cases ps with
  | nil => exact .inl rfl
  | cons p ps => exact .inr ⟨_, rfl⟩

/-- A blank in front of all pieces, and one between each two of them. -/
theorem spaced_eq_cons {ps : List (List Char)} (h : ps ≠ []) :
    spaced ps = ' ' :: [' '].intercalate ps := by
  induction ps with
  | nil => exact (h rfl).elim
  | cons p ps ih =>
    cases ps with
    | nil => simp [spaced]
    | cons q qs =>
      rw [spaced_cons, ih (List.cons_ne_nil q qs), List.intercalate_cons_cons]
      simp

theorem IsPiece.eq_of_append_eq {p q r s : List Char} (hp : IsPiece p) (hq : IsPiece q)
    (hr : r = [] ∨ ∃ cs, r = ' ' :: cs) (hs : s = [] ∨ ∃ cs, s = ' ' :: cs)
    (h : p ++ r = q ++ s) : p = q ∧ r = s := by
  -- a piece without a blank is not a blank in front of something
  have hblank {q r s : List Char} (hq : q ≠ [] ∧ ' ' ∉ q) (h : [' '] ++ r = q ++ s) : False := by
    obtain ⟨c, q, rfl⟩ := List.exists_cons_of_ne_nil hq.1
    obtain ⟨rfl, -⟩ := List.cons.inj h
    exact hq.2 List.mem_cons_self
  -- and it reaches up to the first one
  have htake {p r : List Char} (hp : ' ' ∉ p) (hr : r = [] ∨ ∃ cs, r = ' ' :: cs) :
      (p ++ r).takeWhile (· ≠ ' ') = p := by
    refine Text.takeWhile_run (fun c hc => ?_) ?_
    · have hne : c ≠ ' ' := fun e => hp (e ▸ hc)
      simp [hne]
    · obtain rfl | ⟨cs, rfl⟩ := hr <;> simp
  obtain rfl | hp := hp
  · obtain rfl | hq := hq
    · exact ⟨rfl, List.append_cancel_left h⟩
    · exact (hblank hq h).elim
  · obtain rfl | hq := hq
    · exact (hblank hp h.symm).elim
    · obtain rfl : p = q := by rw [← htake hp.2 hr, h, htake hq.2 hs]
      exact ⟨rfl, List.append_cancel_left h⟩

/-- A text is cut into pieces in one way only. -/
theorem eq_of_spaced_eq {ps qs : List (List Char)} (hp : ∀ p ∈ ps, IsPiece p)
    (hq : ∀ q ∈ qs, IsPiece q) (h : spaced ps = spaced qs) : ps = qs := by
  induction ps generalizing qs with
  | nil =>
    cases qs with
    | nil => rfl
    | cons q qs => cases h
  | cons p ps ih =>
    cases qs with
    | nil => cases h
    | cons q qs =>
      rw [List.forall_mem_cons] at hp hq
      rw [spaced_cons, spaced_cons, List.cons.injEq] at h
      obtain ⟨rfl, hrest⟩ :=
        hp.1.eq_of_append_eq hq.1 (spaced_eq_nil_or ps) (spaced_eq_nil_or qs) h.2
      rw [ih hp.2 hq.2 hrest]

/-- The pieces of a label : its two words if it is a declared name. -/
def labelPieces : List Char → List (List Char)
  | 'D' :: 'c' :: ' ' :: name => [['D', 'c'], name]
  | cs => [cs]

theorem spaced_labelPieces (cs : List Char) : spaced (labelPieces cs) = ' ' :: cs := by
  unfold labelPieces
  split <;> simp [spaced]

namespace Tree

/-- The pieces of the text form of a tree. -/
def pieces : Tree → List (List Char)
  | empty => []
  | node label level a b c d =>
    if (node label level a b c d).isLeaf then labelPieces label.toList
    else ['('] :: label.toList ::
      (a.pieces ++ (b.pieces ++ (c.pieces ++ (d.pieces ++ [[')']]))))

theorem spaced_words (t : Tree) : spaced (t.words.map String.toList) = spaced t.pieces := by
  induction t with
  | empty => rfl
  | node label level a b c d iha ihb ihc ihd =>
    unfold words pieces
    split
    · rw [spaced_labelPieces]
      simp [spaced]
    · simp only [List.map_cons, List.map_append, List.map_nil, spaced_cons, spaced_append,
        List.append_assoc, iha, ihb, ihc, ihd]
      rfl

theorem words_ne_nil {t : Tree} (h : t.isEmpty = false) : t.words ≠ [] := by
  cases t with
  | empty => cases h
  | node label level a b c d =>
    unfold words
    split <;> simp

/-- Trees with the same text form have the same text in pieces. -/
theorem spaced_pieces_eq {t u : Tree} (ht : t.isEmpty = false) (hu : u.isEmpty = false)
    (h : t.preorder = u.preorder) : spaced t.pieces = spaced u.pieces := by
  have hspaced {t : Tree} (ht : t.isEmpty = false) :
      spaced t.pieces = ' ' :: t.preorder.toList := by
    rw [← spaced_words, spaced_eq_cons (by simpa using words_ne_nil ht), preorder,
      String.toList_intercalate]
    rfl
  rw [hspaced ht, hspaced hu, h]

/-! ## Legible trees -/

/-- The label of a leaf. -/
def leafLabel? : Tree → Option String
  | empty => none
  | node label level a b c d => if (node label level a b c d).isLeaf then some label else none

end Tree

/-- The label is a name, or a declared one. -/
def BeginsWithName (label : String) : Prop := IsName label ∨ ∃ name, label = "Dc " ++ name

namespace Tree

/-- The trees are not a leaf `Dc` and a leaf that begins with a name behind it. -/
def Apart (a b : Tree) : Prop :=
  a.leafLabel? = some "Dc" → ∀ label ∈ b.leafLabel?, ¬BeginsWithName label

/-- No leaf is a parenthesis, and no leaf `Dc` stands directly in front of another leaf of the same
node that begins with a name. -/
def Legible : Tree → Prop
  | empty => True
  | node label level a b c d =>
    (∀ leaf ∈ (node label level a b c d).leafLabel?, leaf ≠ "(" ∧ leaf ≠ ")") ∧
      Apart a b ∧ Apart b c ∧ Apart c d ∧ a.Legible ∧ b.Legible ∧ c.Legible ∧ d.Legible

/-- A legible tree with its children in its first slots and the labels of events. -/
structure Readable (events : List Event) (t : Tree) : Prop where
  packed : t.Packed
  legible : t.Legible
  labelled : ∀ mark ∈ t.marks, Labelled events mark

namespace Readable

variable {events : List Event} {label : String} {level : Nat} {a b c d : Tree}

/-- The slots of a readable tree are readable. -/
theorem slots (h : (node label level a b c d).Readable events) :
    a.Readable events ∧ b.Readable events ∧ c.Readable events ∧ d.Readable events := by
  obtain ⟨⟨-, -, -, hpa, hpb, hpc, hpd⟩, ⟨-, -, -, -, hla, hlb, hlc, hld⟩, hm⟩ := h
  simp only [marks, List.forall_mem_append] at hm
  obtain ⟨⟨⟨⟨hma, hmb⟩, hmc⟩, hmd⟩, -⟩ := hm
  exact ⟨⟨hpa, hla, hma⟩, ⟨hpb, hlb, hmb⟩, ⟨hpc, hlc, hmc⟩, hpd, hld, hmd⟩

theorem mark (h : (node label level a b c d).Readable events) :
    Labelled events (label, (node label level a b c d).children.length) :=
  h.labelled _ (by simp [marks])

end Readable

end Tree

/-- The pieces of a label : it is one, or the mark and the name of a declaration. -/
theorem Labelled.pieces {events : List Event} {label : String} {arity : Nat}
    (h : Labelled events (label, arity)) :
    labelPieces label.toList = [label.toList] ∧ IsPiece label.toList ∨
      arity = 0 ∧ ∃ name, IsName name ∧ label = "Dc " ++ name ∧
        labelPieces label.toList = [['D', 'c'], name.toList] := by
  have hword {cs : List Char} (h : IsWord cs) : ' ' ∉ cs := fun hc =>
    absurd (h.2 ' ' hc) (by decide)
  cases h with
  | word hw =>
    refine .inl ⟨?_, .inr ⟨hw.1, hword hw⟩⟩
    unfold labelPieces
    split
    · next heq => exact (hword hw (by simp [heq])).elim
    · rfl
  | @declared name hn =>
    refine .inr ⟨rfl, name, hn, rfl, ?_⟩
    rw [String.toList_append]
    rfl
  | @char c hc he =>
    have ht : (Value.char c).text.toList = [Char.ofNat c.toNat] := by
      rw [Value.text, if_pos hc, String.toList_ofList]
    rw [ht]
    refine .inl ⟨by unfold labelPieces; split <;> simp_all, ?_⟩
    by_cases hb : Char.ofNat c.toNat = ' '
    · exact .inl (by rw [hb])
    · exact .inr ⟨List.cons_ne_nil _ _, by simpa using Ne.symm hb⟩

/-- Only a leaf has a label that is not one piece. -/
theorem Labelled.pieces_of_pos {events : List Event} {label : String} {arity : Nat}
    (h : Labelled events (label, arity)) (hn : 0 < arity) : IsPiece label.toList := by
  obtain ⟨-, hp⟩ | ⟨rfl, -⟩ := h.pieces
  · exact hp
  · exact (Nat.lt_irrefl 0 hn).elim

theorem not_isName_of_mem {cs : List Char} {c : Char} (hc : c ∈ cs)
    (h : Lexeme.isNameChar c = false) : ¬IsName (String.ofList cs) := by
  intro hn
  unfold IsName at hn
  rw [String.toList_ofList] at hn
  cases hn with
  | name hstart hcs =>
    obtain rfl | hc := List.mem_cons.1 hc
    · rw [Lexeme.isNameChar_of_isNameStart hstart] at h
      cases h
    · rw [hcs c hc] at h
      cases h

theorem not_isName_close : ¬IsName (String.ofList [')']) :=
  not_isName_of_mem List.mem_cons_self (by decide)

theorem not_isName_open : ¬IsName (String.ofList ['(']) :=
  not_isName_of_mem List.mem_cons_self (by decide)

namespace Tree

variable {events events' : List Event} {t u a b : Tree} {rest rest' : List (List Char)}

/-! ## Reading a tree -/

theorem length_children_pos (h : t.isLeaf = false) : 0 < t.children.length := by
  rw [children, List.length_filter_pos_iff]
  simpa [isLeaf] using h

theorem leafLabel?_leaf {label : String} {level : Nat} {a b c d : Tree}
    (h : (node label level a b c d).isLeaf = true) :
    (node label level a b c d).leafLabel? = some label := by
  rw [leafLabel?, if_pos h]

theorem pieces_node {label : String} {level : Nat} {a b c d : Tree}
    (h : ¬(node label level a b c d).isLeaf = true) :
    (node label level a b c d).pieces = ['('] :: label.toList ::
      (a.pieces ++ (b.pieces ++ (c.pieces ++ (d.pieces ++ [[')']])))) := by
  rw [pieces, if_neg h]

/-- The pieces of a tree are pieces. -/
theorem Readable.isPiece (h : t.Readable events) : ∀ p ∈ t.pieces, IsPiece p := by
  have hclose : IsPiece [')'] := .inr (by decide)
  have hopen : IsPiece ['('] := .inr (by decide)
  induction t with
  | empty => simp [pieces]
  | node label level a b c d iha ihb ihc ihd =>
    have hm := h.mark
    obtain ⟨ha, hb, hc, hd⟩ := h.slots
    rw [pieces]
    split
    · obtain ⟨hl, hp⟩ | ⟨-, name, hn, -, hl⟩ := hm.pieces
      · simpa [hl] using hp
      · have hmark : IsPiece ['D', 'c'] := .inr (by decide)
        have hname : ' ' ∉ name.toList := fun hc => absurd (hn.isWord.2 ' ' hc) (by decide)
        simpa [hl, hmark] using .inr ⟨hn.isWord.1, hname⟩
    · next hleaf =>
      have hp := hm.pieces_of_pos (length_children_pos (by simpa using hleaf))
      simp only [List.forall_mem_cons, List.forall_mem_append]
      exact ⟨hopen, hp, iha ha, ihb hb, ihc hc, ihd hd, hclose, by simp⟩

/-- The pieces of a leaf : its label, which opens and closes no node, or the mark and the name of a
declaration. -/
theorem Readable.pieces_leaf {label : String} {level : Nat} {a b c d : Tree}
    (h : (node label level a b c d).Readable events)
    (hleaf : (node label level a b c d).isLeaf = true) :
    (node label level a b c d).pieces = [label.toList] ∧ label ≠ "(" ∧ label ≠ ")" ∨
      ∃ name, IsName name ∧ label = "Dc " ++ name ∧
        (node label level a b c d).pieces = [['D', 'c'], name.toList] := by
  rw [pieces, if_pos hleaf]
  obtain ⟨hp, -⟩ | ⟨-, hp⟩ := h.mark.pieces
  · exact .inl ⟨hp, h.legible.1 label (leafLabel?_leaf hleaf)⟩
  · exact .inr hp

/-- The first piece of a tree closes no node, and is a name only if the tree is a leaf that begins
with one. -/
theorem Readable.exists_pieces_eq_cons (h : t.Readable events) (hne : t.isEmpty = false) :
    ∃ p ps, t.pieces = p :: ps ∧ p ≠ [')'] ∧
      (IsName (String.ofList p) → ∃ label, t.leafLabel? = some label ∧ BeginsWithName label) := by
  cases t with
  | empty => cases hne
  | node label level a b c d =>
    by_cases hleaf : (node label level a b c d).isLeaf = true
    · have hl := leafLabel?_leaf hleaf
      obtain ⟨hp, -, hclose⟩ | ⟨name, hn, rfl, hp⟩ := h.pieces_leaf hleaf
      · refine ⟨_, _, hp, fun hc => hclose ?_, fun hn => ⟨label, hl, .inl ?_⟩⟩
        · rw [← String.ofList_toList (s := label), hc]
        · rwa [String.ofList_toList] at hn
      · exact ⟨_, _, hp, by decide, fun _ => ⟨_, hl, .inr ⟨name, rfl⟩⟩⟩
    · exact ⟨_, _, pieces_node hleaf, by decide, fun hn => (not_isName_open hn).elim⟩

/-- What stands behind the pieces of a tree : the end of a node behind an empty slot, and no name
behind a leaf `Dc`. -/
def Ends (t : Tree) (rest : List (List Char)) : Prop :=
  (t.isEmpty = true → rest.head? = some [')']) ∧
    (t.leafLabel? = some "Dc" → ∀ p ∈ rest.head?, ¬IsName (String.ofList p))

theorem ends_close (t : Tree) (rest : List (List Char)) : t.Ends ([')'] :: rest) :=
  ⟨fun _ => rfl, fun _ p hp => by
    obtain rfl := Option.some.inj hp
    exact not_isName_close⟩

/-- A tree ends in front of the one in the next slot. -/
theorem Readable.ends_append (hb : b.Readable events) (he : a.isEmpty = true → b.isEmpty = true)
    (hab : Apart a b) (hr : b.Ends rest) : a.Ends (b.pieces ++ rest) := by
  by_cases hempty : b.isEmpty = true
  · obtain rfl : b = empty := by
      cases b with
      | empty => rfl
      | node => cases hempty
    have hclose : (pieces empty ++ rest).head? = some [')'] := hr.1 rfl
    refine ⟨fun _ => hclose, fun _ p hp => ?_⟩
    obtain rfl := Option.some.inj (hclose.symm.trans hp)
    exact not_isName_close
  · obtain ⟨p, ps, hp, -, hname⟩ := hb.exists_pieces_eq_cons (by simpa using hempty)
    refine ⟨fun ha => (hempty (he ha)).elim, fun ha q hq hn => ?_⟩
    obtain rfl : p = q := by simpa [hp] using hq
    obtain ⟨label, hl, hbegins⟩ := hname hn
    exact hab ha label hl hbegins

/-- No tree stands where a node ends. -/
theorem Readable.append_ne (h : t.Readable events) (hne : t.isEmpty = false)
    (hr : rest.head? = some [')']) : rest ≠ t.pieces ++ rest' := by
  rintro rfl
  obtain ⟨p, ps, hp, hclose, -⟩ := h.exists_pieces_eq_cons hne
  rw [hp] at hr
  exact hclose (Option.some.inj hr)

variable {label label' : String} {level level' : Nat} {c d a' b' c' d' : Tree}

/-- Two leaves with the same pieces in front of their ends have the same label. -/
theorem Readable.eq_of_leaves (ht : (node label level a b c d).Readable events)
    (hu : (node label' level' a' b' c' d').Readable events')
    (hleaf : (node label level a b c d).isLeaf = true)
    (hleaf' : (node label' level' a' b' c' d').isLeaf = true)
    (hr : (node label level a b c d).Ends rest) (hr' : (node label' level' a' b' c' d').Ends rest')
    (h : (node label level a b c d).pieces ++ rest =
      (node label' level' a' b' c' d').pieces ++ rest') : label = label' ∧ rest = rest' := by
  -- a leaf `Dc` in front of a name is not a declared name
  have hapart {label : String} {name : String} {t : Tree} {rest more : List (List Char)}
      (hl : t.leafLabel? = some label) (hr : t.Ends rest) (hn : IsName name)
      (h : [label.toList] ++ rest = [['D', 'c'], name.toList] ++ more) : False := by
    obtain ⟨hlabel, rfl⟩ := List.cons.inj h
    obtain rfl : label = "Dc" := String.toList_inj.1 (hlabel.trans (by decide))
    refine hr.2 hl name.toList rfl ?_
    rwa [String.ofList_toList]
  obtain ⟨hp, -⟩ | ⟨name, hn, rfl, hp⟩ := ht.pieces_leaf hleaf <;>
    obtain ⟨hp', -⟩ | ⟨name', hn', rfl, hp'⟩ := hu.pieces_leaf hleaf' <;> rw [hp, hp'] at h
  · obtain ⟨hlabel, hrest⟩ := List.cons.inj h
    exact ⟨String.toList_inj.1 hlabel, hrest⟩
  · exact (hapart (leafLabel?_leaf hleaf) hr hn' h).elim
  · exact (hapart (leafLabel?_leaf hleaf') hr' hn h.symm).elim
  · simp only [List.cons_append, List.nil_append, List.cons.injEq, true_and] at h
    obtain ⟨hname, hrest⟩ := h
    exact ⟨by rw [String.toList_inj.1 hname], hrest⟩

/-- A leaf has nothing in its slots. -/
theorem withLevels_leaf (h : (node label level a b c d).isLeaf = true) (n : Nat) :
    (node label level a b c d).withLevels n = node label n empty empty empty empty := by
  have hempty {t : Tree} (ht : t.isEmpty = true) : t = empty := by
    cases t with
    | empty => rfl
    | node => cases ht
  obtain ⟨ha, hb, hc, hd⟩ : a.isEmpty = true ∧ b.isEmpty = true ∧ c.isEmpty = true ∧
      d.isEmpty = true := by simpa [isLeaf, Tree.slots] using h
  rw [hempty ha, hempty hb, hempty hc, hempty hd]
  rfl

/-- Only a leaf begins like a leaf. -/
theorem Readable.leaf_append_ne (ht : (node label level a b c d).Readable events)
    (hleaf : (node label level a b c d).isLeaf = true)
    (hleaf' : ¬(node label' level' a' b' c' d').isLeaf = true) :
    (node label level a b c d).pieces ++ rest ≠
      (node label' level' a' b' c' d').pieces ++ rest' := by
  intro h
  rw [pieces_node hleaf'] at h
  obtain ⟨hp, hopen, -⟩ | ⟨name, -, -, hp⟩ := ht.pieces_leaf hleaf <;> rw [hp] at h
  · refine hopen ?_
    rw [← String.ofList_toList (s := label), (List.cons.inj h).1]
  · cases (List.cons.inj h).1

/-- Two trees whose pieces are the same in front of their ends are the same, whatever their
levels. -/
theorem Readable.eq_of_pieces_append_eq (ht : t.Readable events) (hu : u.Readable events')
    (hr : t.Ends rest) (hr' : u.Ends rest') (h : t.pieces ++ rest = u.pieces ++ rest') :
    (∀ n, t.withLevels n = u.withLevels n) ∧ rest = rest' := by
  induction t generalizing u rest rest' with
  | empty =>
    cases u with
    | empty => exact ⟨fun _ => rfl, h⟩
    | node => exact (hu.append_ne rfl (hr.1 rfl) h).elim
  | node label level a b c d iha ihb ihc ihd =>
    cases u with
    | empty => exact (ht.append_ne rfl (hr'.1 rfl) h.symm).elim
    | node label' level' a' b' c' d' =>
      by_cases hleaf : (node label level a b c d).isLeaf = true <;>
        by_cases hleaf' : (node label' level' a' b' c' d').isLeaf = true
      · obtain ⟨rfl, hrest⟩ := ht.eq_of_leaves hu hleaf hleaf' hr hr' h
        exact ⟨fun n => by rw [withLevels_leaf hleaf, withLevels_leaf hleaf'], hrest⟩
      · exact (ht.leaf_append_ne hleaf hleaf' h).elim
      · exact (hu.leaf_append_ne hleaf' hleaf h.symm).elim
      · obtain ⟨ha, hb, hc, hd⟩ := ht.slots
        obtain ⟨ha', hb', hc', hd'⟩ := hu.slots
        obtain ⟨hab, hbc, hcd, -⟩ := ht.packed
        obtain ⟨hab', hbc', hcd', -⟩ := hu.packed
        obtain ⟨-, hxab, hxbc, hxcd, -⟩ := ht.legible
        obtain ⟨-, hxab', hxbc', hxcd', -⟩ := hu.legible
        -- every slot stands in front of the next one, and the last in front of the end
        have hed := ends_close d rest
        have hec := hd.ends_append hcd hxcd hed
        have heb := hc.ends_append hbc hxbc hec
        have hea := hb.ends_append hab hxab heb
        have hed' := ends_close d' rest'
        have hec' := hd'.ends_append hcd' hxcd' hed'
        have heb' := hc'.ends_append hbc' hxbc' hec'
        have hea' := hb'.ends_append hab' hxab' heb'
        rw [pieces_node hleaf, pieces_node hleaf'] at h
        simp only [List.cons_append, List.append_assoc, List.nil_append, List.cons.injEq,
          true_and] at h
        obtain ⟨hlabel, h⟩ := h
        obtain rfl := String.toList_inj.1 hlabel
        obtain ⟨hna, h⟩ := iha ha ha' hea hea' h
        obtain ⟨hnb, h⟩ := ihb hb hb' heb heb' h
        obtain ⟨hnc, h⟩ := ihc hc hc' hec hec' h
        obtain ⟨hnd, h⟩ := ihd hd hd' hed hed' h
        refine ⟨fun n => ?_, (List.cons.inj h).2⟩
        rw [withLevels, withLevels, hna, hnb, hnc, hnd]

theorem withLevels_withLevels (t : Tree) (m n : Nat) :
    (t.withLevels m).withLevels n = t.withLevels n := by
  induction t generalizing m n with
  | empty => rfl
  | node label level a b c d iha ihb ihc ihd => simp only [withLevels, iha, ihb, ihc, ihd]

end Tree

/-- The text form of a source tells its tree, among the sources whose trees are legible. -/
theorem preorder_injective {source source' : String} {t u : Tree}
    (ht : (analyze source).root = some t) (hu : (analyze source').root = some u)
    (hlt : t.Legible) (hlu : u.Legible)
    (h : (analyze source).preorder = (analyze source').preorder) : t = u := by
  obtain ⟨⟨hne, hp⟩, hm⟩ := root_labelled ht
  obtain ⟨⟨hne', hp'⟩, hm'⟩ := root_labelled hu
  have hreadable : t.Readable (parse source).events := ⟨hp, hlt, hm⟩
  have hreadable' : u.Readable (parse source').events := ⟨hp', hlu, hm'⟩
  have hends {t : Tree} (hne : t.isEmpty = false) : t.Ends [] := by simp [Tree.Ends, hne]
  rw [Analysis.preorder, Analysis.preorder, ht, hu] at h
  have hpieces := eq_of_spaced_eq hreadable.isPiece hreadable'.isPiece
    (Tree.spaced_pieces_eq hne hne' (Option.some.inj h))
  obtain ⟨heq, -⟩ := hreadable.eq_of_pieces_append_eq hreadable' (hends hne) (hends hne')
    (congrArg (· ++ []) hpieces)
  obtain ⟨-, tree, -, -, rfl⟩ := exists_after_of_root ht
  obtain ⟨-, tree', -, -, rfl⟩ := exists_after_of_root hu
  have h1 := heq 1
  rwa [Tree.withLevels_withLevels, Tree.withLevels_withLevels] at h1

/-- The braces around the statement make no difference, in the text form or in the tree. -/
theorem preorder_injective_of_braces : ∃ t u,
    (analyze "int f()\x7bif(1)return 'a';\x7d").root = some t ∧
    (analyze "int f()\x7bif(1)\x7breturn 'a';\x7d\x7d").root = some u ∧
    t.Legible ∧ u.Legible ∧ t.preorder = "( f ( if 1 ( return a ) ) )" ∧ t = u := by
  have ht : (analyze "int f()\x7bif(1)return 'a';\x7d").root =
      some (.node "f" 1 (.node "if" 2 (.node "1" 3 .empty .empty .empty .empty)
        (.node "return" 3 (.node "a" 4 .empty .empty .empty .empty) .empty .empty .empty)
        .empty .empty) .empty .empty .empty) := by cbv
  have hu : (analyze "int f()\x7bif(1)\x7breturn 'a';\x7d\x7d").root =
      some (.node "f" 1 (.node "if" 2 (.node "1" 3 .empty .empty .empty .empty)
        (.node "return" 3 (.node "a" 4 .empty .empty .empty .empty) .empty .empty .empty)
        .empty .empty) .empty .empty .empty) := by cbv
  have hl : (Tree.node "f" 1 (.node "if" 2 (.node "1" 3 .empty .empty .empty .empty)
      (.node "return" 3 (.node "a" 4 .empty .empty .empty .empty) .empty .empty .empty)
      .empty .empty) .empty .empty .empty).Legible := by
    simp [Tree.Legible, Tree.Apart, Tree.leafLabel?, Tree.isLeaf, Tree.slots, Tree.isEmpty]
  exact ⟨_, _, ht, hu, hl, hl, by cbv, preorder_injective ht hu hl hl (by cbv)⟩

/-- The sources have trees with the same text form that are not the same. -/
def Confused (source source' : String) : Prop :=
  ∃ t u, (analyze source).root = some t ∧ (analyze source').root = some u ∧
    (analyze source).preorder = (analyze source').preorder ∧ t.postorder ≠ u.postorder

theorem confused_of_orders {source source' text : String} {ps qs : List String}
    (h : (analyze source).root.map (fun t => (t.preorder, t.postorder)) = some (text, ps))
    (h' : (analyze source').root.map (fun t => (t.preorder, t.postorder)) = some (text, qs))
    (hne : ps ≠ qs) : Confused source source' := by
  obtain ⟨t, ht, he⟩ := Option.map_eq_some_iff.1 h
  obtain ⟨u, hu, he'⟩ := Option.map_eq_some_iff.1 h'
  obtain ⟨rfl, rfl⟩ := Prod.mk.inj he
  obtain ⟨hp, rfl⟩ := Prod.mk.inj he'
  refine ⟨t, u, ht, hu, ?_, hne⟩
  rw [Analysis.preorder, Analysis.preorder, ht, hu, Option.map_some, Option.map_some, hp]

/-- A declaration of `x` reads like a use of `Dc` in front of one of `x`, and the literals that are
parentheses like the ends and starts of nodes. -/
theorem confused_by_labels :
    Confused "int Dc;int x;int f()\x7bif(1)\x7bint x;\x7d\x7d"
        "int Dc;int x;int f()\x7bif(1)Dc;else x;\x7d" ∧
      Confused "int a;int f()\x7bif(a)if(a)a;else')';\x7d"
        "int a;int f()\x7bif(a)\x7bif(a)a;\x7delse')';\x7d" ∧
      Confused "int a;int f()\x7bif(a)\x7bif('(')'!';else a;\x7delse if(!a)a;\x7d"
        "int a;int f()\x7bif(a)if(!a)if('(')'!';else a;else a;\x7d" := by
  refine ⟨?_, ?_, ?_⟩
  · exact confused_of_orders (by cbv) (by cbv) (by decide)
  · exact confused_of_orders (by cbv) (by cbv) (by decide)
  · exact confused_of_orders (by cbv) (by cbv) (by decide)

end MiniC
