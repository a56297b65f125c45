import MiniC.Proofs.Grammar.Origin
import MiniC.Proofs.Outcome
import MiniC.Proofs.Token.Splitting
import MiniC.Proofs.Tree.Levels

/-!
# The labels of a tree

Every node of a tree has the mark of one of the events, apart from the leaf that stands for a
division by zero (`Analyzer.mem_assemble`). So its label is a word, which has no white space in it,
or the name of a variable behind the mark of its declaration, or the character of a literal, and
only a leaf has a label of the last two kinds (`root_labelled`).
-/

namespace MiniC

/-- The text is not empty and has no white space in it. -/
def IsWord (cs : List Char) : Prop := cs ≠ [] ∧ ∀ c ∈ cs, Text.isWhiteSpace c = false

instance (cs : List Char) : Decidable (IsWord cs) :=
  decidable_of_iff (cs ≠ [] ∧ cs.all fun c => !Text.isWhiteSpace c) (by simp [IsWord])

/-- The text is that of a name. -/
def IsName (name : String) : Prop := Token.Kind.Spelled name.toList (.name name)

/-- The marks that the events of a source can leave : a word, a declared name, or the character of a
literal. -/
inductive Labelled (events : List Event) : Mark → Prop
  | word {label : String} {arity : Nat} (h : IsWord label.toList) : Labelled events (label, arity)
  | declared {name : String} (h : IsName name) : Labelled events ("Dc " ++ name, 0)
  | char {c : UInt8} (hc : c < 128) (h : ∃ e ∈ events, e.rule = .literal (.char c)) :
    Labelled events ((Value.char c).text, 0)

/-! ## Words -/

theorem isWhiteSpace_of_graphic {c : Char} (h : 32 < c.toNat) (h' : c.toNat < 127) :
    Text.isWhiteSpace c = false := by
  simp [Text.isWhiteSpace, Text.whiteSpace]
  omega

theorem isWhiteSpace_of_isNameChar {c : Char} (h : Lexeme.isNameChar c = true) :
    Text.isWhiteSpace c = false := by
  simp only [Lexeme.isNameChar, Char.isAlphanum, Char.isAlpha, Char.isUpper, Char.isLower,
    Char.isDigit, Bool.or_eq_true, Bool.and_eq_true, decide_eq_true_eq, ge_iff_le,
    UInt32.le_iff_toNat_le] at h
  have hbetween {low high : UInt32} (h : low.toNat ≤ c.val.toNat ∧ c.val.toNat ≤ high.toNat)
      (hl : 32 < low.toNat) (hh : high.toNat < 127) : Text.isWhiteSpace c = false :=
    isWhiteSpace_of_graphic (Nat.lt_of_lt_of_le hl h.1) (Nat.lt_of_le_of_lt h.2 hh)
  obtain ((h | h) | h) | rfl := h
  · exact hbetween h (by decide) (by decide)
  · exact hbetween h (by decide) (by decide)
  · exact hbetween h (by decide) (by decide)
  · decide

theorem isWhiteSpace_of_isDigit {c : Char} (h : c.isDigit = true) :
    Text.isWhiteSpace c = false :=
  isWhiteSpace_of_isNameChar (by simp [Lexeme.isNameChar, Char.isAlphanum, h])

theorem IsWord.append {cs ds : List Char} (h : IsWord cs) (h' : IsWord ds) : IsWord (cs ++ ds) :=
  ⟨by simp [h.1], List.forall_mem_append.2 ⟨h.2, h'.2⟩⟩

theorem eq_toList_of_spelled {word : List Char} {name : String}
    (h : Token.Kind.Spelled word (.name name)) : word = name.toList := by
  cases h
  exact String.toList_ofList.symm

theorem IsName.isWord {name : String} (h : IsName name) : IsWord name.toList := by
  unfold IsName at h
  generalize name.toList = word at h
  cases h with
  | name hc hcs =>
    refine ⟨List.cons_ne_nil _ _, List.forall_mem_cons.2 ⟨?_, fun d hd => ?_⟩⟩
    · exact isWhiteSpace_of_isNameChar (Lexeme.isNameChar_of_isNameStart hc)
    · exact isWhiteSpace_of_isNameChar (hcs d hd)

theorem isWord_digits (n : Nat) : IsWord (Decimal.digits n) :=
  ⟨Nat.toDigits_ne_nil, fun _ hc =>
    isWhiteSpace_of_isDigit (Nat.isDigit_of_mem_toDigits (by decide) (by decide) hc)⟩

theorem isWord_toString (n : Int) : IsWord (toString n).toList := by
  have hnat (n : Nat) : IsWord (toString n).toList := by
    rw [Nat.toString_eq_ofList_toDigits, String.toList_ofList]
    exact isWord_digits n
  cases n with
  | ofNat n => exact hnat n
  | negSucc n =>
    have hneg : toString (Int.negSucc n) = "-" ++ toString (n + 1) := rfl
    rw [hneg, String.toList_append]
    exact IsWord.append (by decide) (hnat (n + 1))

theorem isWord_point (places n : Nat) : IsWord (Decimal.point places n).toList := by
  have hpart : ∀ c ∈ Decimal.paddedLeft '0' places (Decimal.digits (n % Nat.pow 10 places)),
      Text.isWhiteSpace c = false := by
    rw [Decimal.paddedLeft]
    refine List.forall_mem_append.2 ⟨fun c hc => ?_, (isWord_digits _).2⟩
    rw [List.eq_of_mem_replicate hc]
    decide
  unfold Decimal.point
  dsimp only
  split
  · rw [String.toList_ofList]
    exact isWord_digits _
  · rw [String.toList_ofList]
    exact (isWord_digits _).append ⟨List.cons_ne_nil _ _, List.forall_mem_cons.2 ⟨by decide, hpart⟩⟩

theorem isWord_fixed (places : Nat) (x : Float32) : IsWord (Decimal.fixed places x).toList := by
  have hsigned (sign : Float.Model.UnpackedFloat.Sign) {text : String} (h : IsWord text.toList) :
      IsWord (Decimal.signMark sign ++ text).toList := by
    rw [String.toList_append]
    cases sign with
    | negative => exact IsWord.append (by decide) h
    | positive => exact h
  unfold Decimal.fixed
  split
  · decide
  · exact hsigned _ (by decide)
  · exact hsigned _ (isWord_point places 0)
  · exact hsigned _ (isWord_point places _)

theorem isWord_hexDigits (c : UInt8) : IsWord (Value.hexDigits c) := by
  have h : ∀ n : Fin 256, IsWord (Decimal.paddedLeft '0' 2 (Nat.toDigits 16 n)) := by
    decide +kernel
  exact h ⟨c.toNat, c.toNat_lt⟩

/-- A value is written as a word, unless it is a character that is written as itself. -/
theorem isWord_text {v : Value} (h : ∀ c < 128, v ≠ .char c) : IsWord v.text.toList := by
  cases v with
  | int n => exact isWord_toString n.toInt
  | float x => exact isWord_fixed 6 x
  | char c =>
    have hc : ¬c < 128 := fun hc => h c hc rfl
    rw [Value.text, if_neg hc, String.toList_ofList]
    have hmark : IsWord ['\\', 'x'] := by decide
    exact hmark.append (isWord_hexDigits c)

/-! ## The marks of events -/

/-- Every token of the list can be spelled. -/
def TokenList.Spelled (ts : TokenList) : Prop :=
  ∀ t ∈ ts.tokens, ∃ word, Token.Kind.Spelled word t.kind

theorem Splits.spelled {before cs : List Char} {ts : TokenList} (h : Splits before cs ts) :
    ts.Spelled := by
  induction h with
  | stop => exact fun t ht => (List.not_mem_nil ht).elim
  | token _ _ hw _ _ ih => exact List.forall_mem_cons.2 ⟨⟨_, hw⟩, ih⟩

theorem TokenList.Has.isName {ts : TokenList} {name : String} (h : ts.Has (.name name))
    (hts : ts.Spelled) : IsName name := by
  obtain ⟨t, ht, hk⟩ := h
  obtain ⟨word, hw⟩ := hts t ht
  rw [hk] at hw
  obtain rfl := eq_toList_of_spelled hw
  exact hw

/-- The mark of an event is one of those that the events of its text can leave. -/
theorem Event.labelled {ts : TokenList} (hts : ts.Spelled) {events : List Event} {e : Event}
    (hm : e ∈ events) (he : e.StandsIn ts) {mark : Mark} (h : e.rule.mark? = some mark) :
    Labelled events mark := by
  obtain ⟨rule, loc⟩ := e
  obtain ⟨hrule, -⟩ := he
  obtain ⟨label, hl, rfl⟩ := Option.map_eq_some_iff.1 h
  cases rule
  case openScope | closeScope | typeSpecifier | functionDeclarator | parameter | declaration =>
    cases hl
  case functionDefinition name typed | declTarget name | identifier name =>
    obtain rfl := Option.some.inj hl
    exact .word (TokenList.Has.isName hrule hts).isWord
  case declarator name =>
    obtain rfl := Option.some.inj hl
    exact .declared (TokenList.Has.isName hrule hts)
  case literal value =>
    obtain rfl := Option.some.inj hl
    by_cases hv : ∃ c < 128, value = .char c
    · obtain ⟨c, hc, rfl⟩ := hv
      exact .char hc ⟨_, hm, rfl⟩
    · exact .word (isWord_text (by simpa using hv))
  case unary op =>
    obtain rfl := Option.some.inj hl
    exact .word (by cases op <;> decide)
  case postfixed op =>
    obtain rfl := Option.some.inj hl
    exact .word (by cases op <;> decide)
  case binary op =>
    obtain rfl := Option.some.inj hl
    exact .word (by cases op <;> decide)
  case assign op =>
    obtain rfl := Option.some.inj hl
    exact .word (by cases op <;> decide)
  all_goals
    obtain rfl := Option.some.inj hl
    exact .word (by decide)

/-! ## The marks of a tree -/

theorem Rule.mem_edit {r : Rule} {problems : List Problem} {segments : List Segment} {mark : Mark}
    (h : mark ∈ (r.edit problems segments).reverse.flatten) :
    mark ∈ segments.reverse.flatten ∨ r.mark? = some mark ∨ mark = ("2147483647", 0) := by
  unfold edit at h
  split at h
  · simp only [List.reverse_cons, List.flatten_append, List.mem_append] at h ⊢
    obtain h | h := h
    · exact .inl (.inl (.inl h))
    · exact .inr (.inr (by simpa using h))
  · exact .inl (by simp only [List.reverse_cons, List.flatten_append, List.mem_append, h, true_or])
  · rw [Analyzer.flatten_combine, List.mem_append, Option.mem_toList] at h
    exact h.imp_right .inl

namespace Analyzer

variable {a z : Analyzer} {events : List Event} {segments : List Segment} {mark : Mark}

/-- A mark behind events was there before or is that of an event, or that of a division by zero. -/
theorem mem_assemble (h : mark ∈ (a.assemble events segments).reverse.flatten) :
    mark ∈ segments.reverse.flatten ∨ (∃ e ∈ events, e.rule.mark? = some mark) ∨
      mark = ("2147483647", 0) := by
  induction events generalizing a segments with
  | nil => exact .inl h
  | cons event events ih =>
    rw [assemble] at h
    split at h
    · obtain h | ⟨e, he, hm⟩ | h := ih h
      · obtain h | h | h := Rule.mem_edit h
        · exact .inl h
        · exact .inr (.inl ⟨event, List.mem_cons_self, h⟩)
        · exact .inr (.inr h)
      · exact .inr (.inl ⟨e, List.mem_cons_of_mem event he, hm⟩)
      · exact .inr (.inr h)
    · exact .inl h

theorem exists_of_root_finish {failure : Option Failure} {root : Tree}
    (h : (a.finish failure).root = some root) :
    ∃ tree, a.trees.trees = [tree] ∧ root = tree.withLevels 1 := by
  unfold finish at h
  split at h
  · next tree ht =>
    unfold TreeStack.root? at ht
    split at ht
    · next t hl =>
      obtain rfl := Except.ok.inj ht
      exact ⟨t, hl, (Option.some.inj h).symm⟩
    · cases ht
  · cases h

end Analyzer

/-- The tree of a source is the only one that its events leave, with levels from one on. -/
theorem exists_after_of_root {source : String} {root : Tree}
    (h : (analyze source).root = some root) :
    ∃ last tree, Analyzer.start.after (parse source).events = .ok last ∧
      last.trees.trees = [tree] ∧ root = tree.withLevels 1 := by
  obtain ⟨last, hl⟩ := exists_after_parse source
  rw [analyze, EventStream.analyze, Analyzer.run_of_after hl] at h
  cases hf : (parse source).failure with
  | none =>
    rw [hf] at h
    obtain ⟨tree, ht, hr⟩ := Analyzer.exists_of_root_finish h
    exact ⟨last, tree, hl, ht, hr⟩
  | some e =>
    rw [hf] at h
    obtain ⟨tree, ht, hr⟩ := Analyzer.exists_of_root_finish h
    exact ⟨last, tree, hl, ht, hr⟩

namespace Tree

theorem marks_withLevels (t : Tree) (n : Nat) : (t.withLevels n).marks = t.marks := by
  induction t generalizing n with
  | empty => rfl
  | node label level a b c d iha ihb ihc ihd =>
    have hc := congrArg List.length (children_withLevels (node label level a b c d) n)
    rw [List.length_map] at hc
    rw [withLevels] at hc ⊢
    rw [marks, marks, hc, iha, ihb, ihc, ihd]

theorem packed_withLevels (t : Tree) (n : Nat) : (t.withLevels n).Packed ↔ t.Packed := by
  induction t generalizing n with
  | empty => rfl
  | node label level a b c d iha ihb ihc ihd =>
    simp only [withLevels, Packed, isEmpty_withLevels, iha, ihb, ihc, ihd]

end Tree

/-- The root of a source is a node with its children in its first slots everywhere, and its marks
are those that the events of the source can leave. -/
theorem root_labelled {source : String} {root : Tree} (h : (analyze source).root = some root) :
    root.Finished ∧ ∀ mark ∈ root.marks, Labelled (parse source).events mark := by
  obtain ⟨last, tree, hl, ht, rfl⟩ := exists_after_of_root h
  have hstart : Analyzer.start.AllFinished := by
    simp [Analyzer.AllFinished, Analyzer.start, TreeStack.empty]
  obtain ⟨hf, hs⟩ := Analyzer.segments_of_after hstart hl
  have hsegments : last.segments = [tree.marks] := by rw [Analyzer.segments, ht]; rfl
  obtain ⟨hne, hp⟩ := hf tree (by rw [ht]; exact List.mem_singleton_self tree)
  refine ⟨⟨(tree.isEmpty_withLevels 1).trans hne, (tree.packed_withLevels 1).2 hp⟩,
    fun mark hm => ?_⟩
  rw [Tree.marks_withLevels] at hm
  have hmem : mark ∈ (Analyzer.start.assemble (parse source).events
      Analyzer.start.segments).reverse.flatten := by
    rw [← hs, hsegments]
    simpa using hm
  obtain hm | ⟨e, he, hm⟩ | rfl := Analyzer.mem_assemble hmem
  · cases hm
  · obtain ⟨ts, ht, hin⟩ := Event.exists_standsIn he
    have hsplits : Splits [] source.toList ts := tokensFrom_splits rfl ht
    exact Event.labelled hsplits.spelled he hin hm
  · exact .word (by decide)

end MiniC
