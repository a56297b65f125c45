import MiniC.Proofs.Token.Printing

/-!
# A text in front of a blank

A blank ends every token, so that a text keeps its tokens when a blank and more text are put behind
it (`tokensFrom_append`). Each lexeme is read as before (`Lexeme.scan_append`), and each gap but the
last is passed over as before (`Gap.skip_append_of_word`). The last gap may go on into the text
behind it, as a line comment without a line break does.
-/

namespace MiniC

variable {more : List Char}

/-! ## Lexemes -/

namespace Lexeme

/-- The lexeme with more text behind it. -/
def onto (l : Lexeme) (more : List Char) : Lexeme := { l with rest := l.rest ++ more }

theorem opensExponent_append (hm : Delimits more) (cs : List Char) :
    opensExponent (cs ++ more) = opensExponent cs := by
  cases cs with
  | cons c cs => rfl
  | nil =>
    cases more with
    | nil => rfl
    | cons b more =>
      obtain rfl | rfl | rfl | rfl := isBlank_cases (hm b rfl)
      all_goals rfl

theorem splitNumber_delimits (hm : Delimits more) (p : NumberPart) :
    splitNumber p more = ([], more) := by
  cases more with
  | nil => rfl
  | cons b more =>
    obtain rfl | rfl | rfl | rfl := isBlank_cases (hm b rfl)
    all_goals simp [splitNumber, Decimal.Numeral.isSign, Decimal.Numeral.isExponentMark]

/-- A number ends where it did. -/
theorem splitNumber_onto (hm : Delimits more) (p : NumberPart) (cs : List Char) :
    splitNumber p (cs ++ more) = ((splitNumber p cs).1, (splitNumber p cs).2 ++ more) := by
  induction cs generalizing p with
  | nil => exact splitNumber_delimits hm p
  | cons c cs ih =>
    simp only [List.cons_append, splitNumber, opensExponent_append hm]
    split
    · next q hq => simp only [ih q]
    · rfl

theorem splitSuffix_onto (hm : Delimits more) (cs : List Char) :
    splitSuffix (cs ++ more) = ((splitSuffix cs).1, (splitSuffix cs).2 ++ more) := by
  cases cs with
  | cons c cs =>
    simp only [List.cons_append, splitSuffix]
    split <;> rfl
  | nil =>
    cases more with
    | nil => rfl
    | cons b more =>
      obtain rfl | rfl | rfl | rfl := isBlank_cases (hm b rfl)
      all_goals rfl

variable {loc : Location} {cs : List Char} {l : Lexeme}

theorem number_onto (hm : Delimits more) (h : number loc cs = .ok l) :
    number loc (cs ++ more) = .ok (l.onto more) := by
  simp only [number, splitNumber_onto hm, splitSuffix_onto hm] at h ⊢
  split at h
  · next hd =>
    rw [if_pos hd]
    split at h
    · next hlt =>
      obtain rfl := Except.ok.inj h
      rw [if_pos hlt]
      rfl
    · cases h
  · next hd =>
    rw [if_neg hd]
    split at h
    · obtain rfl := Except.ok.inj h
      rfl
    · cases h

theorem closeChar_onto {spelled : List Char} {value : UInt8}
    (h : closeChar loc spelled value cs = .ok l) (more : List Char) :
    closeChar loc spelled value (cs ++ more) = .ok (l.onto more) := by
  cases cs with
  | nil => cases h
  | cons c cs =>
    rw [closeChar] at h
    rw [List.cons_append, closeChar]
    split at h
    · next hc =>
      obtain rfl := Except.ok.inj h
      rw [if_pos hc]
      rfl
    · cases h

/-- A character literal has its end in itself. -/
theorem charLiteral_onto (h : charLiteral loc cs = .ok l) (more : List Char) :
    charLiteral loc (cs ++ more) = .ok (l.onto more) := by
  cases cs with
  | nil => cases h
  | cons c cs =>
    by_cases hc : c = '\\'
    · subst hc
      cases cs with
      | nil => cases h
      | cons d cs =>
        simp only [charLiteral, List.cons_append] at h ⊢
        split at h
        · exact closeChar_onto h more
        · cases h
    · rw [List.cons_append]
      rw [charLiteral] at h ⊢
      · split at h
        · next hlt =>
          rw [if_pos hlt]
          exact closeChar_onto h more
        · cases h
      all_goals simp [hc]

theorem word_onto (hm : Delimits more) (cs : List Char) :
    word (cs ++ more) = (word cs).onto more := by
  have hsplit : (cs ++ more).takeWhile isNameChar = cs.takeWhile isNameChar ∧
      (cs ++ more).dropWhile isNameChar = cs.dropWhile isNameChar ++ more := by
    induction cs with
    | nil =>
      cases more with
      | nil => exact ⟨rfl, rfl⟩
      | cons b more => simp [isNameChar_of_isBlank (hm b rfl)]
    | cons c cs ih => cases hc : isNameChar c <;> simp [hc, ih]
  rw [word, hsplit.1, hsplit.2]
  rfl

theorem punctuator?_onto (hm : Delimits more) (h : punctuator? cs = some l) :
    punctuator? (cs ++ more) = some (l.onto more) := by
  match cs with
  | [] => cases h
  | [c] =>
    obtain ⟨p, hp, rfl⟩ := Option.map_eq_some_iff.1 h
    cases more with
    | nil => exact h
    | cons b more =>
      rw [List.cons_append, List.nil_append, punctuator?, pair?_eq_none_of_isBlank (hm b rfl), hp]
      rfl
  | c :: d :: cs =>
    simp only [punctuator?, List.cons_append] at h ⊢
    split at h
    · obtain rfl := Option.some.inj h
      rfl
    · obtain ⟨p, hp, rfl⟩ := Option.map_eq_some_iff.1 h
      rw [hp]
      rfl

theorem startsNumber_append (hm : Delimits more) (c : Char) (cs : List Char) :
    startsNumber (c :: cs ++ more) = startsNumber (c :: cs) := by
  cases cs with
  | cons d cs => rfl
  | nil =>
    cases more with
    | nil => rfl
    | cons b more =>
      obtain rfl | rfl | rfl | rfl := isBlank_cases (hm b rfl)
      all_goals simp [startsNumber]

/-- A lexeme is read as before when a blank and more text stand behind the text. -/
theorem scan_append (hm : Delimits more) {c : Char} (h : scan loc c cs = .ok l) :
    scan loc c (cs ++ more) = .ok (l.onto more) := by
  rw [scan] at h
  rw [scan, ← List.cons_append, startsNumber_append hm]
  split at h
  · next hc =>
    rw [if_pos hc]
    exact charLiteral_onto h more
  next hc =>
  rw [if_neg hc]
  split at h
  · next hn =>
    rw [if_pos hn]
    exact number_onto hm h
  next hn =>
  rw [if_neg hn]
  split at h
  · next hw =>
    obtain rfl := Except.ok.inj h
    rw [if_pos hw, word_onto hm]
  next hw =>
  rw [if_neg hw]
  split at h
  · next hp =>
    obtain rfl := Except.ok.inj h
    rw [punctuator?_onto hm hp]
  · cases h

end Lexeme

/-! ## Gaps -/

/-- A gap in front of a word has its end in itself. -/
theorem IsGap.isClosedGap {gap rest : List Char} (h : IsGap gap rest) (hr : rest ≠ []) :
    IsClosedGap gap := by
  induction h with
  | nil rest => exact .nil
  | blank hc h ih => exact .blank hc (ih hr)
  | line hm hb h ih => exact .line hm hb (ih hr)
  | lastLine hm hb => exact (hr rfl).elim
  | block hb h ih => exact .block hb (ih hr)

theorem opensGap_iff {c : Char} {cs : List Char} : OpensGap (c :: cs) ↔
    IsBlank c ∨ c = '#' ∨ c = '/' ∧ ∃ d ∈ cs.head?, d = '/' ∨ d = '*' := by
  unfold OpensGap
  split
  · next heq =>
    obtain ⟨rfl, rfl⟩ := List.cons.inj heq
    simp
  · next heq =>
    obtain ⟨rfl, rfl⟩ := List.cons.inj heq
    simp
  · next heq =>
    obtain ⟨rfl, rfl⟩ := List.cons.inj heq
    simp
  · next d ds hline hblock hhash heq =>
    obtain ⟨rfl, rfl⟩ := List.cons.inj heq
    refine ⟨.inl, ?_⟩
    rintro (hb | rfl | ⟨rfl, e, he, rfl | rfl⟩)
    · exact hb
    · exact (hhash rfl).elim
    · obtain ⟨es, rfl⟩ := List.head?_eq_some_iff.1 he
      exact (hline es rfl rfl).elim
    · obtain ⟨es, rfl⟩ := List.head?_eq_some_iff.1 he
      exact (hblock es rfl rfl).elim
  · next heq => cases heq

/-- No blank behind a word makes the start of a gap of it. -/
theorem not_opensGap_append (hm : Lexeme.Delimits more) {c : Char} {cs : List Char}
    (h : ¬OpensGap (c :: cs)) : ¬OpensGap (c :: cs ++ more) := by
  rw [List.cons_append, opensGap_iff]
  rintro (hb | hh | ⟨hs, d, hd, hopen⟩)
  · exact h (opensGap_iff.2 (.inl hb))
  · exact h (opensGap_iff.2 (.inr (.inl hh)))
  · cases cs with
    | cons e cs => exact h (opensGap_iff.2 (.inr (.inr ⟨hs, d, hd, hopen⟩)))
    | nil =>
      obtain rfl | rfl | rfl | rfl := isBlank_cases (hm d hd)
      all_goals simp at hopen

/-- A gap in front of a word is passed over as before when a blank and more text stand behind. -/
theorem Gap.skip_append_of_word (hm : Lexeme.Delimits more) {loc place : Location} {c : Char}
    {cs r : List Char} (h : skip .blank loc cs = .ok ⟨place, c :: r⟩) :
    skip .blank loc (cs ++ more) = .ok ⟨place, c :: (r ++ more)⟩ := by
  obtain ⟨gap, rfl, hl, hc, ho⟩ := skip_covers h
  dsimp only at hl hc ho
  rw [hl, List.append_assoc]
  exact skip_append (IsGap.isClosedGap hc (List.cons_ne_nil c r)) (not_opensGap_append hm ho) loc

/-! ## Texts -/

/-- A step on the result of one that succeeds. -/
theorem exists_of_map_ok {ε α β : Type} {x : Except ε α} {f : α → β} {b : β}
    (h : x.map f = .ok b) : ∃ a, x = .ok a ∧ f a = b := by
  cases x with
  | error e => cases h
  | ok a => exact ⟨a, rfl, Except.ok.inj h⟩

/-- A gap and the lexeme behind it are the first token of a text. -/
theorem tokensFrom_of_scan {loc place : Location} {cs : List Char} {c : Char} {r : List Char}
    {l : Lexeme} (hg : Gap.skip .blank loc cs = .ok ⟨place, c :: r⟩)
    (hs : Lexeme.scan place c r = .ok l) :
    tokensFrom loc cs = (tokensFrom (place.after l.spelling) l.rest).map fun ts =>
      ⟨⟨l.kind, place⟩ :: ts.tokens, ts.stop⟩ := by
  rw [tokensFrom]
  split <;> rename_i heq
  · cases hg.symm.trans heq
  · cases hg.symm.trans heq
  · obtain ⟨rfl, rfl, rfl⟩ := by simpa using hg.symm.trans heq
    split <;> rename_i heq
    · cases hs.symm.trans heq
    · obtain rfl := Except.ok.inj (hs.symm.trans heq)
      rfl

/-- A text keeps its tokens when a blank and more text stand behind it, if all of it is cut into
tokens. -/
theorem tokensFrom_append (hm : Lexeme.Delimits more) {loc : Location} {cs : List Char}
    {ts us : TokenList} (hts : tokensFrom loc cs = .ok ts)
    (hus : tokensFrom loc (cs ++ more) = .ok us) : ts.tokens <+: us.tokens := by
  fun_induction tokensFrom loc cs generalizing ts us with
  | case1 | case3 => cases hts
  | case2 loc cs stop hg =>
    obtain rfl := Except.ok.inj hts
    exact List.nil_prefix
  | case4 loc cs place c r hg l hs ih =>
    rw [tokensFrom_of_scan (Gap.skip_append_of_word hm hg) (Lexeme.scan_append hm hs)] at hus
    obtain ⟨ts, ht, rfl⟩ := exists_of_map_ok hts
    obtain ⟨us, hu, rfl⟩ := exists_of_map_ok hus
    exact (List.prefix_cons_inj _).2 (ih ht hu)

end MiniC
