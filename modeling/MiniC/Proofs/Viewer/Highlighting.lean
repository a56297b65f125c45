import Mathlib
import MiniC.Text.Run
import MiniC.Viewer.Highlight

/-!
# How a line is cut and coloured

A line is cut behind every word, around every other character, and in front of its first comment.
`IsCut` says so by the places of the texts alone, and is met by one list of texts only, the one that
`highlight` shows (`highlight_texts_iff`). `highlightFrom` keeps the word it is in and lets go of it
at three places, and yet loses nothing and repeats nothing : it is `highlight` (`highlightFrom_nil`).

The style of a word is told by the word and by whether a parenthesis opens behind it, with one
exception : right in front of a comment a word has no style at all (`run_styled`).
-/

namespace MiniC.Viewer

variable {before after rest text run word line : List Char} {texts : List (List Char)} {c : Char}

/-! ## Words and comments -/

/-- A character that words are made of. -/
def InWord (c : Char) : Prop := Text.isAlphanumeric c = true ∨ c = '_' ∨ c = '.'

theorem isWordChar_iff : isWordChar c = true ↔ InWord c := by
  simp [isWordChar, InWord, or_assoc]

theorem inWord_iff_of_lt (h : c.toNat < 0xAA) :
    InWord c ↔ c.isAlphanum = true ∨ c = '_' ∨ c = '.' := by
  rw [InWord, Text.isAlphanumeric_of_lt h]

theorem not_inWord_slash : ¬InWord '/' :=
  (inWord_iff_of_lt (by decide)).not.2 (by decide)

theorem startsComment_iff {cs : List Char} : startsComment cs = true ↔ ['/', '/'] <+: cs := by
  unfold startsComment
  split
  · simp
  · next h =>
    refine iff_of_false Bool.false_ne_true ?_
    rintro ⟨behind, rfl⟩
    exact h behind rfl

theorem not_comment_of_inWord (hc : InWord c) (cs : List Char) : ¬['/', '/'] <+: c :: cs := by
  intro h
  obtain ⟨rfl, -⟩ := List.cons_prefix_cons.1 h
  exact not_inWord_slash hc

theorem not_inWord_of_comment (h : ['/', '/'] <+: text) : ∀ c ∈ text.head?, ¬InWord c := by
  obtain ⟨behind, rfl⟩ := h
  rintro _ ⟨⟩
  exact not_inWord_slash

/-- `run` is a word between `before` and `after`, all of it. -/
structure IsRun (before run after : List Char) : Prop where
  ne_nil : run ≠ []
  inWord : ∀ c ∈ run, InWord c
  left : ∀ c ∈ before.getLast?, ¬InWord c
  right : ∀ c ∈ after.head?, ¬InWord c

theorem IsRun.alone (h : IsRun before run after) : IsRun [] run after :=
  ⟨h.ne_nil, h.inWord, nofun, h.right⟩

/-! ## What the cut does -/

theorem highlight_nil : highlight [] = [] := by
  rw [highlight]

theorem highlight_comment (h : ['/', '/'] <+: text) :
    highlight text = [⟨text, .colored Theme.muted⟩] := by
  obtain ⟨behind, rfl⟩ := h
  simp [highlight, startsComment]

theorem highlight_sign (hc : ¬InWord c) (hn : ¬['/', '/'] <+: c :: rest) :
    highlight (c :: rest) = ⟨[c], signStyle c⟩ :: highlight rest := by
  rw [highlight, if_neg (mt startsComment_iff.1 hn), if_neg (mt isWordChar_iff.1 hc)]

theorem highlight_word (h : IsRun [] run after) :
    highlight (run ++ after) =
      ⟨run, if ['/', '/'] <+: after then .plain else wordStyle run (after.head? = some '(')⟩ ::
        highlight after := by
  obtain ⟨c, cs, rfl⟩ := List.exists_cons_of_ne_nil h.ne_nil
  have hc : InWord c := h.inWord c List.mem_cons_self
  have hcs : ∀ d ∈ cs, isWordChar d = true := fun d hd =>
    isWordChar_iff.2 (h.inWord d (List.mem_cons_of_mem c hd))
  have ha : ∀ d ∈ after.head?, isWordChar d = false := fun d hd =>
    Bool.eq_false_iff.2 (mt isWordChar_iff.1 (h.right d hd))
  rw [List.cons_append, highlight, if_neg (mt startsComment_iff.1 (not_comment_of_inWord hc _)),
    if_pos (isWordChar_iff.2 hc)]
  simp only [Text.takeWhile_run hcs ha, Text.dropWhile_run hcs ha, startsComment_iff]

/-- A line is nothing, a comment, a word and the line behind it, or another character and the line
behind it. -/
@[elab_as_elim]
theorem parts_induction {motive : List Char → Prop} (nil : motive [])
    (comment : ∀ text, ['/', '/'] <+: text → motive text)
    (word : ∀ run after, IsRun [] run after → motive after → motive (run ++ after))
    (sign : ∀ c after, ¬InWord c → ¬['/', '/'] <+: c :: after → motive after →
      motive (c :: after)) (line : List Char) : motive line := by
  fun_induction highlight line with
  | case1 => exact nil
  | case2 c cs h => exact comment _ (startsComment_iff.1 h)
  | case3 c cs h hc _ _ _ ih =>
    have hrun : IsRun [] (c :: cs.takeWhile isWordChar) (cs.dropWhile isWordChar) := by
      refine ⟨List.cons_ne_nil _ _, fun d hd => ?_, nofun, fun d hd => ?_⟩
      · obtain rfl | hd := List.mem_cons.1 hd
        · exact isWordChar_iff.1 hc
        · exact isWordChar_iff.1 (List.mem_takeWhile_imp hd)
      · have hnot := Text.eq_false_of_mem_head?_dropWhile hd
        exact mt isWordChar_iff.2 (Bool.eq_false_iff.1 hnot)
    have hline := word _ _ hrun ih
    rwa [List.cons_append, List.takeWhile_append_dropWhile] at hline
  | case4 c cs h hc ih =>
    exact sign c cs (mt isWordChar_iff.2 hc) (mt startsComment_iff.2 h) ih

/-! ## In one pass -/

/-- A word that is pending is let go of in front of what ends it. -/
theorem highlight_pending (hw : ∀ c ∈ word, InWord c) (ha : ∀ c ∈ after.head?, ¬InWord c) :
    highlight (word ++ after) =
      pendingSpan word
          (if ['/', '/'] <+: after then .plain else wordStyle word (after.head? = some '(')) ++
        highlight after := by
  unfold pendingSpan
  split
  · next h => rw [h, List.nil_append, List.nil_append]
  · next h => rw [highlight_word ⟨h, hw, nofun, ha⟩, List.singleton_append]

/-- The pass has cut off `spans`, and what is still to be cut is the pending word and the rest. -/
theorem highlightFrom_eq (spans : List Span) (hw : ∀ c ∈ word, InWord c) (rest : List Char) :
    highlightFrom spans word rest = spans ++ highlight (word ++ rest) := by
  induction rest generalizing spans word with
  | nil =>
    have hend : ∀ c ∈ ([] : List Char).head?, ¬InWord c := nofun
    rw [highlightFrom, highlight_pending hw hend, highlight_nil, List.append_nil]
    rfl
  | cons c cs ih =>
    rw [highlightFrom]
    split
    · next h =>
      have hc := startsComment_iff.1 h
      rw [highlight_pending hw (not_inWord_of_comment hc), if_pos hc, highlight_comment hc,
        List.append_assoc]
    · next h =>
      have hn := mt startsComment_iff.2 h
      split
      · next hc =>
        have hword : ∀ d ∈ word ++ [c], InWord d := by
          simpa [or_imp, forall_and] using ⟨hw, isWordChar_iff.1 hc⟩
        rw [ih spans hword, List.append_assoc, List.singleton_append]
      · next hc =>
        have hsign : ¬InWord c := mt isWordChar_iff.2 hc
        rw [ih _ (List.forall_mem_nil InWord), highlight_pending hw (by simpa using hsign), if_neg hn,
          highlight_sign hsign hn]
        simp

theorem highlightFrom_nil (line : List Char) : highlightFrom [] [] line = highlight line :=
  highlightFrom_eq [] (List.forall_mem_nil InWord) line

/-! ## Where a line may be cut -/

/-- No comment starts in `before`, where `rest` stands behind it. -/
def Uncommented (before rest : List Char) : Prop :=
  ∀ i < before.length, ¬['/', '/'] <+: (before ++ rest).drop i

theorem uncommented_append : Uncommented (before ++ text) rest ↔
    Uncommented before (text ++ rest) ∧ Uncommented text rest := by
  have hdrop (i : Nat) : (before ++ (text ++ rest)).drop (before.length + i) =
      (text ++ rest).drop i := List.drop_length_add_append i
  simp only [Uncommented, List.append_assoc, List.length_append]
  constructor
  · intro h
    refine ⟨fun i hi => h i (by omega), fun i hi => ?_⟩
    rw [← hdrop]
    exact h _ (by omega)
  · rintro ⟨hb, ht⟩ i hi
    obtain hlt | ⟨j, rfl⟩ := (Nat.lt_or_ge i before.length).imp_right Nat.exists_eq_add_of_le
    · exact hb i hlt
    · rw [hdrop]
      exact ht j (by omega)

theorem uncommented_singleton : Uncommented [c] rest ↔ ¬['/', '/'] <+: c :: rest := by
  simp [Uncommented]

theorem uncommented_of_inWord (hw : ∀ c ∈ word, InWord c) (rest : List Char) :
    Uncommented word rest := by
  intro i hi
  rw [List.drop_append_of_le_length hi.le, List.drop_eq_getElem_cons hi, List.cons_append]
  exact not_comment_of_inWord (hw _ (List.getElem_mem hi)) _

/-- A line may be cut between `before` and `rest` : no comment has started, and no word goes on. -/
structure IsSeam (before rest : List Char) : Prop where
  uncommented : Uncommented before rest
  parted : ∀ c ∈ before.getLast?, InWord c → ∀ d ∈ rest.head?, ¬InWord d

namespace IsSeam

theorem nil (rest : List Char) : IsSeam [] rest :=
  ⟨nofun, nofun⟩

theorem of_isRun (hr : IsRun before run after) (hn : Uncommented before (run ++ after)) :
    IsSeam before (run ++ after) :=
  ⟨hn, fun c hc hw => absurd hw (hr.left c hc)⟩

/-- The word that a line goes on with is all of one. -/
theorem isRun (hs : IsSeam before (run ++ after)) (hr : IsRun [] run after) :
    IsRun before run after := by
  refine ⟨hr.ne_nil, hr.inWord, fun c hc hw => ?_, hr.right⟩
  obtain ⟨d, run, rfl⟩ := List.exists_cons_of_ne_nil hr.ne_nil
  exact hs.parted c hc hw d rfl (hr.inWord d List.mem_cons_self)

theorem behind_run (hs : IsSeam before (run ++ after)) (hr : IsRun [] run after) :
    IsSeam (before ++ run) after :=
  ⟨uncommented_append.2 ⟨hs.uncommented, uncommented_of_inWord hr.inWord after⟩,
    fun _ _ _ => hr.right⟩

theorem behind_sign (hs : IsSeam before (c :: after)) (hc : ¬InWord c)
    (hn : ¬['/', '/'] <+: c :: after) : IsSeam (before ++ [c]) after := by
  refine ⟨uncommented_append.2 ⟨hs.uncommented, uncommented_singleton.2 hn⟩, fun d hd hw => ?_⟩
  obtain rfl : c = d := by simpa using hd
  exact absurd hw hc

/-- What stands further in front does not matter. -/
theorem drop_left (hs : IsSeam (before ++ text) rest) : IsSeam text rest :=
  ⟨(uncommented_append.1 hs.uncommented).2,
    fun c hc => hs.parted c (List.mem_getLast?_append_of_mem_getLast? hc)⟩

end IsSeam

/-- A line is cut at a seam : the spans in front of it show what stands there, and behind it the line
is cut as if it started there. -/
theorem highlight_append (hs : IsSeam before rest) : ∃ front,
    front.flatMap Span.text = before ∧ highlight (before ++ rest) = front ++ highlight rest := by
  induction before using parts_induction with
  | nil => exact ⟨[], rfl, rfl⟩
  | comment text h =>
    have hlen : 0 < text.length := lt_of_lt_of_le Nat.two_pos h.length_le
    exact absurd (h.trans (List.prefix_append text rest)) (hs.uncommented 0 hlen)
  | word run after hr ih =>
    have hrun : IsRun [] run (after ++ rest) := by
      refine ⟨hr.ne_nil, hr.inWord, nofun, ?_⟩
      cases after with
      | nil =>
        have hlast := List.getLast_mem hr.ne_nil
        exact hs.parted _ (by simp [List.getLast?_eq_getLast_of_ne_nil hr.ne_nil])
          (hr.inWord _ hlast)
      | cons d after => exact hr.right
    obtain ⟨front, hf, hh⟩ := ih hs.drop_left
    rw [List.append_assoc, highlight_word hrun, hh]
    exact ⟨_ :: front, by rw [List.flatMap_cons, hf], rfl⟩
  | sign c after hc hn ih =>
    have hs' : IsSeam ([c] ++ after) rest := hs
    have hn' : ¬['/', '/'] <+: c :: (after ++ rest) :=
      uncommented_singleton.1 (uncommented_append.1 hs'.uncommented).1
    obtain ⟨front, hf, hh⟩ := ih hs'.drop_left
    rw [List.cons_append, highlight_sign hc hn', hh]
    exact ⟨_ :: front, by rw [List.flatMap_cons, hf]; rfl, rfl⟩

/-! ## The cut by its places -/

/-- What a line may be cut into : `text` stands between `before` and `after`, and is a whole word, a
single character of no word, or the first comment with all that is behind it. -/
inductive IsPart (before text after : List Char) : Prop
  | word (hr : IsRun before text after) (hn : Uncommented (before ++ text) after)
  | sign {c : Char} (ht : text = [c]) (hc : ¬InWord c) (hn : Uncommented (before ++ text) after)
  | comment (hm : ['/', '/'] <+: text) (hn : Uncommented before (text ++ after)) (ha : after = [])

theorem IsPart.ne_nil (h : IsPart before text after) : text ≠ [] := by
  cases h with
  | word hr _ => exact hr.ne_nil
  | sign ht _ _ => exact ht ▸ List.cons_ne_nil _ _
  | comment hm _ _ =>
    rintro rfl
    exact List.cons_ne_nil _ _ (List.prefix_nil.1 hm)

/-- A line behind `before`, cut into texts. -/
structure IsCut (before line : List Char) (texts : List (List Char)) : Prop where
  /-- Nothing is lost, repeated or moved. -/
  flatten : texts.flatten = line
  /-- Every text is cut off where it should be. -/
  part : ∀ front text back, texts = front ++ text :: back →
    IsPart (before ++ front.flatten) text back.flatten

namespace IsCut

theorem nil (before : List Char) : IsCut before [] [] :=
  ⟨rfl, fun front text back h => by simp at h⟩

theorem cons (hp : IsPart before text rest) (h : IsCut (before ++ text) rest texts) :
    IsCut before (text ++ rest) (text :: texts) := by
  refine ⟨by rw [List.flatten_cons, h.flatten], fun front t back ht => ?_⟩
  obtain ⟨rfl, ht⟩ | ⟨front, rfl, rfl⟩ := List.cons_eq_append_iff.1 ht
  · obtain ⟨rfl, rfl⟩ := List.cons_eq_cons.1 ht
    simpa [h.flatten] using hp
  · simpa using h.part front t back rfl

theorem head (h : IsCut before line (text :: texts)) : IsPart before text texts.flatten := by
  simpa using h.part [] text texts rfl

theorem tail (h : IsCut before line (text :: texts)) :
    IsCut (before ++ text) texts.flatten texts := by
  refine ⟨rfl, fun front t back ht => ?_⟩
  simpa using h.part (text :: front) t back (by rw [ht, List.cons_append])

theorem eq_nil (h : IsCut before [] texts) : texts = [] := by
  cases texts with
  | nil => rfl
  | cons text texts =>
    have hne := h.head.ne_nil
    exact absurd (List.append_eq_nil_iff.1 h.flatten).1 hne

/-- Only one list of texts is cut as it should be. -/
theorem eq (h : IsCut before line texts) : (highlight line).map Span.text = texts := by
  induction texts generalizing before line with
  | nil =>
    obtain rfl := h.flatten
    rw [List.flatten_nil, highlight_nil, List.map_nil]
  | cons text texts ih =>
    obtain rfl := h.flatten
    rw [List.flatten_cons]
    cases h.head with
    | word hr _ => rw [highlight_word hr.alone, List.map_cons, ih h.tail]
    | sign ht hc hn =>
      subst ht
      have hs := uncommented_singleton.1 (uncommented_append.1 hn).2
      rw [List.singleton_append, highlight_sign hc hs, List.map_cons, ih h.tail]
    | comment hm _ ha =>
      have htexts : texts = [] := (ha ▸ h.tail).eq_nil
      rw [ha, List.append_nil, highlight_comment hm, htexts, List.map_singleton]

end IsCut

/-- Behind a seam a line is cut as it should be. -/
theorem isCut_highlight (hs : IsSeam before line) :
    IsCut before line ((highlight line).map Span.text) := by
  induction line using parts_induction generalizing before with
  | nil =>
    rw [highlight_nil]
    exact .nil before
  | comment text h =>
    have hp : IsPart before text [] :=
      .comment h (by simpa using hs.uncommented) rfl
    rw [highlight_comment h]
    simpa using IsCut.cons hp (.nil _)
  | word run after hr ih =>
    have hs' := hs.behind_run hr
    rw [highlight_word hr]
    exact .cons (.word (hs.isRun hr) hs'.uncommented) (ih hs')
  | sign c after hc hn ih =>
    have hs' := hs.behind_sign hc hn
    rw [highlight_sign hc hn]
    exact .cons (.sign rfl hc hs'.uncommented) (ih hs')

/-- The texts of a highlighted line are the line, cut into whole words, single other characters and
at most one comment at its end, which starts where the first one does. No other texts are. -/
theorem highlight_texts_iff (line : List Char) (texts : List (List Char)) :
    (highlight line).map Span.text = texts ↔ IsCut [] line texts := by
  constructor
  · rintro rfl
    exact isCut_highlight (.nil line)
  · exact IsCut.eq

/-- The cells of a highlighted line show the line. -/
theorem text_ofSpans_highlight (line : List Char) : (Row.ofSpans (highlight line)).text = line := by
  have hcells : Row.text ∘ Span.cells = Span.text := by
    funext s
    simp [Row.text, Span.cells, Function.comp_def]
  have hflat := (isCut_highlight (.nil line)).flatten
  rw [← List.flatMap_def, ← hcells] at hflat
  rwa [Row.text, Row.ofSpans, List.map_flatMap]

/-! ## The style of a word -/

theorem wordStyle_ne_plain (word : List Char) (called : Bool) : wordStyle word called ≠ .plain := by
  unfold wordStyle
  split_ifs <;> simp [Style.colored, Style.bolded, Style.plain]

/-- A whole word in front of the first comment is one span of a highlighted line. It has the style
that the word has by itself, called or not, unless the comment stands right behind it : then it has
none. -/
theorem run_styled (hr : IsRun before run after) (hn : Uncommented before (run ++ after)) :
    ∃ front, front.flatMap Span.text = before ∧ highlight (before ++ (run ++ after)) =
      front ++ ⟨run, if ['/', '/'] <+: after then .plain
        else wordStyle run (after.head? = some '(')⟩ :: highlight after := by
  obtain ⟨front, hf, hh⟩ := highlight_append (.of_isRun hr hn)
  exact ⟨front, hf, by rw [hh, highlight_word hr.alone]⟩

/-- A function is called in front of a comment. -/
theorem called_run_styled :
    IsRun ['y', '='] ['f', '1'] ['(', ')', '/', '/'] ∧
      Uncommented ['y', '='] ['f', '1', '(', ')', '/', '/'] ∧
      ∃ front, front.flatMap Span.text = ['y', '='] ∧
        highlight ['y', '=', 'f', '1', '(', ')', '/', '/'] =
          front ++ ⟨['f', '1'], .colored Theme.function⟩ :: highlight ['(', ')', '/', '/'] := by
  have hr : IsRun ['y', '='] ['f', '1'] ['(', ')', '/', '/'] := by
    refine ⟨by simp, ?_, ?_, ?_⟩
    · simp [inWord_iff_of_lt]
    · simp [inWord_iff_of_lt]
    · simp [inWord_iff_of_lt]
  have hn : Uncommented ['y', '='] ['f', '1', '(', ')', '/', '/'] := by
    unfold Uncommented
    decide
  exact ⟨hr, hn, run_styled hr hn⟩

/-- The name of a type has no style right in front of a comment, though no word is without one. -/
theorem run_before_comment_plain :
    IsRun [] ['i', 'n', 't'] ['/', '/'] ∧ Uncommented [] ['i', 'n', 't', '/', '/'] ∧
      highlight ['i', 'n', 't', '/', '/'] =
        [⟨['i', 'n', 't'], .plain⟩, ⟨['/', '/'], .colored Theme.muted⟩] ∧
      wordStyle ['i', 'n', 't'] (['/', '/'].head? = some '(') ≠ .plain := by
  have hm : ['/', '/'] <+: ['/', '/'] := List.prefix_rfl
  have hr : IsRun [] ['i', 'n', 't'] ['/', '/'] :=
    ⟨by simp, by simp [inWord_iff_of_lt], nofun, not_inWord_of_comment hm⟩
  have hh : highlight (['i', 'n', 't'] ++ ['/', '/']) =
      [⟨['i', 'n', 't'], .plain⟩, ⟨['/', '/'], .colored Theme.muted⟩] := by
    rw [highlight_word hr, highlight_comment hm, if_pos hm]
  exact ⟨hr, nofun, hh, wordStyle_ne_plain _ _⟩

end MiniC.Viewer
