import Mathlib
import MiniC.Proofs.Token.Spelling
import MiniC.Token.Lexer

/-!
# A text is gaps and words in turn

`Splits [] source tokens` says how a text relates to its tokens : gap, word, gap, word and so on to
the last gap, where each word is spelled as its token can be and reaches as far as it can, and where
each token knows the line and the column its word starts at. `tokenize_splits` shows that of every
text that is cut into tokens.

A place is counted off the text in front of it (`Location.behind`), not advanced character by
character, so that a line break counts wherever it stands : in a blank, a comment or a literal.
-/

namespace MiniC

/-! ## Places -/

namespace Location

/-- The place behind the text that a source starts with : one line on for each line break in it, and
one column on for each character since the last of them. -/
def behind (text : List Char) : Location :=
  ⟨1 + text.count '\n', 1 + (text.reverse.takeWhile (· ≠ '\n')).length⟩

theorem start_after (text : List Char) : start.after text = behind text := by
  induction text using List.reverseRecOn with
  | nil => rfl
  | append_singleton text c ih =>
    rw [after_append, ih, after_cons, after_nil, advance]
    by_cases hc : c = '\n'
    · simp [behind, hc]; omega
    · simp [behind, hc]; omega

theorem behind_after (before text : List Char) :
    (behind before).after text = behind (before ++ text) := by
  rw [← start_after, ← start_after, after_append]

end Location

/-! ## Gaps -/

/-- A character that stands between tokens and means nothing else. -/
def IsBlank (c : Char) : Prop := c ∈ [' ', '\t', '\r', '\n']

/-- What opens a line comment or a directive. -/
def OpensLine (mark : List Char) : Prop := mark = ['/', '/'] ∨ mark = ['#']

/-- `gap` is a run of blanks, comments and directives in front of `rest`. A line comment and a
directive end with the next line break or with the text, a block comment with the first `*/`. -/
inductive IsGap : List Char → List Char → Prop
  | nil (rest : List Char) : IsGap [] rest
  | blank {c : Char} {gap rest : List Char} (hc : IsBlank c) (h : IsGap gap rest) :
    IsGap (c :: gap) rest
  | line {mark body gap rest : List Char} (hm : OpensLine mark) (hb : '\n' ∉ body)
      (h : IsGap gap rest) : IsGap (mark ++ (body ++ '\n' :: gap)) rest
  | lastLine {mark body : List Char} (hm : OpensLine mark) (hb : '\n' ∉ body) :
    IsGap (mark ++ body) []
  | block {body gap rest : List Char} (hb : ¬['*', '/'] <:+: body) (h : IsGap gap rest) :
    IsGap ('/' :: '*' :: (body ++ '*' :: '/' :: gap)) rest

/-- `gap` goes on inside a line that is passed over, up to `rest`. -/
def EndsLine (gap rest : List Char) : Prop :=
  ∃ body, '\n' ∉ body ∧
    ((∃ behind, gap = body ++ '\n' :: behind ∧ IsGap behind rest) ∨ gap = body ∧ rest = [])

theorem IsGap.ofLine {mark gap rest : List Char} (hm : OpensLine mark) (h : EndsLine gap rest) :
    IsGap (mark ++ gap) rest := by
  obtain ⟨body, hb, ⟨behind, rfl, hg⟩ | ⟨rfl, rfl⟩⟩ := h
  · exact .line hm hb hg
  · exact .lastLine hm hb

theorem EndsLine.cons {c : Char} {gap rest : List Char} (hc : c ≠ '\n') (h : EndsLine gap rest) :
    EndsLine (c :: gap) rest := by
  obtain ⟨body, hb, hend⟩ := h
  refine ⟨c :: body, by simpa [hb] using hc.symm, ?_⟩
  obtain ⟨behind, rfl, hg⟩ | ⟨rfl, rfl⟩ := hend
  · exact .inl ⟨behind, rfl, hg⟩
  · exact .inr ⟨rfl, rfl⟩

/-- A blank, a comment or a directive stands in front of the text. -/
def OpensGap : List Char → Prop
  | '/' :: '/' :: _ | '/' :: '*' :: _ | '#' :: _ => True
  | c :: _ => IsBlank c
  | [] => False

namespace Gap

/-- `gap` stands in front of `rest` and ends what `part` is inside of. -/
def Covers (part : Gap) (gap rest : List Char) : Prop :=
  match part with
  | .blank => IsGap gap rest
  | .line => EndsLine gap rest
  | .block _ => ∃ body behind, gap = body ++ '*' :: '/' :: behind ∧ ¬['*', '/'] <:+: body ∧
      IsGap behind rest

theorem isBlank_iff {c : Char} : isBlank c ↔ IsBlank c := by
  simp [isBlank, IsBlank, or_assoc]

theorem covers_block_cons {opened : Location} {c : Char} {gap rest : List Char}
    (hc : ¬['*', '/'] <+: c :: (gap ++ rest)) (h : Covers (.block opened) gap rest) :
    Covers (.block opened) (c :: gap) rest := by
  obtain ⟨body, behind, rfl, hb, hg⟩ := h
  refine ⟨c :: body, behind, rfl, ?_, hg⟩
  rw [List.infix_cons_iff]
  rintro (hp | hi)
  · exact hc (hp.trans (by simp))
  · exact hb hi

/-- What is passed over is a gap, and reaches as far as it can. -/
theorem skip_covers {part : Gap} {loc : Location} {cs : List Char} {cursor : Cursor}
    (h : skip part loc cs = .ok cursor) :
    ∃ gap, cs = gap ++ cursor.rest ∧ cursor.location = loc.after gap ∧ part.Covers gap cursor.rest ∧
      ¬OpensGap cursor.rest := by
  fun_induction skip part loc cs with
  | case1 => cases h
  | case2 opened loc cs ih =>
    obtain ⟨gap, hcs, hl, hc, ho⟩ := ih h
    exact ⟨'*' :: '/' :: gap, by simp [hcs], by simpa using hl,
      ⟨[], gap, rfl, by decide, hc⟩, ho⟩
  | case3 loc opened c cs hnot ih =>
    obtain ⟨gap, hcs, hl, hc, ho⟩ := ih h
    refine ⟨c :: gap, by simp [hcs], by simpa using hl, covers_block_cons ?_ hc, ho⟩
    rw [← hcs]
    rintro ⟨ds, hds⟩
    obtain ⟨rfl, rfl⟩ := List.cons.inj hds
    exact hnot ds rfl rfl
  | case4 loc =>
    obtain rfl := Except.ok.inj h
    exact ⟨[], rfl, rfl, ⟨[], by simp, .inr ⟨rfl, rfl⟩⟩, id⟩
  | case5 loc c cs ih =>
    obtain ⟨gap, hcs, hl, hc, ho⟩ := ih h
    refine ⟨c :: gap, by simp [hcs], by simpa using hl, ?_, ho⟩
    by_cases hbreak : c = '\n'
    · rw [if_pos hbreak] at hc
      exact ⟨[], by simp, .inl ⟨gap, by simp [hbreak], hc⟩⟩
    · rw [if_neg hbreak] at hc
      exact hc.cons hbreak
  | case6 loc =>
    obtain rfl := Except.ok.inj h
    exact ⟨[], rfl, rfl, .nil _, id⟩
  | case7 loc cs ih =>
    obtain ⟨gap, hcs, hl, hc, ho⟩ := ih h
    exact ⟨'/' :: '/' :: gap, by simp [hcs], by simpa using hl, .ofLine (.inl rfl) hc, ho⟩
  | case8 loc cs ih =>
    obtain ⟨gap, hcs, hl, ⟨body, behind, rfl, hb, hg⟩, ho⟩ := ih h
    exact ⟨'/' :: '*' :: (body ++ '*' :: '/' :: behind), by simp [hcs], by simpa using hl,
      .block hb hg, ho⟩
  | case9 loc c cs _ _ hb ih =>
    obtain ⟨gap, hcs, hl, hc, ho⟩ := ih h
    exact ⟨c :: gap, by simp [hcs], by simpa using hl, .blank (isBlank_iff.1 hb) hc, ho⟩
  | case10 loc cs _ _ _ ih =>
    obtain ⟨gap, hcs, hl, hc, ho⟩ := ih h
    exact ⟨'#' :: gap, by simp [hcs], by simpa using hl, .ofLine (.inr rfl) hc, ho⟩
  | case11 loc c cs hslash hstar hb hhash =>
    obtain rfl := Except.ok.inj h
    refine ⟨[], rfl, rfl, .nil _, fun ho => ?_⟩
    unfold OpensGap at ho
    split at ho <;> rename_i heq <;> injection heq <;> subst_vars
    · exact hslash _ rfl rfl
    · exact hstar _ rfl rfl
    · exact hhash rfl
    · exact hb (isBlank_iff.2 ho)

end Gap

/-! ## Texts -/

/-- The text `cs`, which stands behind `before`, is gaps and the words of the tokens in turn. A word
starts where no gap could go on, is spelled as its token can be and reaches as far as it can. The
token has the place of its first character, and the list the place where the text ends. -/
inductive Splits : List Char → List Char → TokenList → Prop
  | stop {before gap : List Char} (hg : IsGap gap []) :
    Splits before gap ⟨[], .behind (before ++ gap)⟩
  | token {before gap word rest : List Char} {kind : Token.Kind} {ts : TokenList}
      (hg : IsGap gap (word ++ rest)) (ho : ¬OpensGap (word ++ rest)) (hw : kind.Spelled word)
      (hs : kind.Stops word rest) (h : Splits (before ++ gap ++ word) rest ts) :
    Splits before (gap ++ (word ++ rest)) ⟨⟨kind, .behind (before ++ gap)⟩ :: ts.tokens, ts.stop⟩

theorem tokensFrom_splits {loc : Location} {before cs : List Char} {ts : TokenList}
    (hloc : loc = .behind before) (h : tokensFrom loc cs = .ok ts) : Splits before cs ts := by
  fun_induction tokensFrom loc cs generalizing before ts with
  | case1 => cases h
  | case2 loc cs stop hg =>
    obtain rfl := Except.ok.inj h
    obtain ⟨gap, rfl, hl, hc, -⟩ := Gap.skip_covers hg
    dsimp only at hl hc ⊢
    rw [hl, hloc, Location.behind_after, List.append_nil]
    exact .stop hc
  | case3 => cases h
  | case4 loc cs place c r hg l hs ih =>
    match hts : tokensFrom (place.after l.spelling) l.rest with
    | .error e =>
      rw [hts] at h
      cases h
    | .ok ts =>
    rw [hts] at h
    obtain rfl := Except.ok.inj h
    obtain ⟨gap, rfl, hl, hc, ho⟩ := Gap.skip_covers hg
    obtain ⟨hw, hstop⟩ := Lexeme.scan_wellRead hs
    dsimp only at hl hc ho ⊢
    have hplace : place = .behind (before ++ gap) := by rw [hl, hloc, Location.behind_after]
    rw [← (Lexeme.scan_splits hs).1] at hc ho ⊢
    rw [hplace]
    refine .token hc ho hw hstop (ih ?_ hts)
    rw [hplace, Location.behind_after]

/-- A text that is cut into tokens is gaps and the words of its tokens in turn. -/
theorem tokenize_splits {source : String} {ts : TokenList} (h : tokenize source = .ok ts) :
    Splits [] source.toList ts := tokensFrom_splits rfl h

/-- The line break in the comment counts, and the two signs of the comparison stay together. -/
theorem splits_of_comparison_behind_comment :
    tokenize "/*\n*/ x>=1 // y" = .ok ⟨[⟨.name "x", ⟨2, 4⟩⟩, ⟨.punct .greaterEqual, ⟨2, 5⟩⟩,
      ⟨.literal (.int 1), ⟨2, 7⟩⟩], ⟨2, 13⟩⟩ ∧
    Splits [] "/*\n*/ x>=1 // y".toList ⟨[⟨.name "x", ⟨2, 4⟩⟩, ⟨.punct .greaterEqual, ⟨2, 5⟩⟩,
      ⟨.literal (.int 1), ⟨2, 7⟩⟩], ⟨2, 13⟩⟩ := by
  have h : tokenize "/*\n*/ x>=1 // y" = .ok ⟨[⟨.name "x", ⟨2, 4⟩⟩,
      ⟨.punct .greaterEqual, ⟨2, 5⟩⟩, ⟨.literal (.int 1), ⟨2, 7⟩⟩], ⟨2, 13⟩⟩ := by cbv
  exact ⟨h, tokenize_splits h⟩

end MiniC
