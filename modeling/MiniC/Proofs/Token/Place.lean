import MiniC.Proofs.Token.Appending
import MiniC.Text.Lines

/-!
# Places in a text and its lines

A token stands at one of the characters of its text (`tokenize_places`), and a fault of the lexer at
one of them or at the end (`tokenize_fault_place`). The line of a character is one of the lines that
the text is cut into (`Location.IsAt.line_le`). The end of a text is on a line of it too, unless it
is behind a line break : the line that begins there is not counted (`Location.line_behind_concat`).
-/

namespace MiniC

/-! ## The lines of a text -/

namespace Text

theorem count_lt_length_linesFrom (acc front : List Char) (c : Char) (back : List Char) :
    front.count '\n' < (linesFrom acc (front ++ c :: back)).length := by
  induction front generalizing acc with
  | nil =>
    induction back generalizing acc c with
    | nil =>
      simp only [List.nil_append, linesFrom]
      split <;> simp
    | cons d back ih =>
      rw [List.nil_append, linesFrom]
      split
      · simp
      · exact ih d (c :: acc)
  | cons d front ih =>
    rw [List.cons_append, linesFrom]
    split
    · next hd =>
      rw [hd, List.count_cons_self, List.length_cons]
      exact Nat.succ_lt_succ (ih [])
    · next hd =>
      rw [List.count_cons_of_ne hd]
      exact ih (d :: acc)

theorem length_linesFrom_concat (acc text : List Char) :
    (linesFrom acc (text ++ ['\n'])).length = text.count '\n' + 1 := by
  induction text generalizing acc with
  | nil => simp [linesFrom]
  | cons d text ih =>
    rw [List.cons_append, linesFrom]
    split
    · next hd => rw [hd, List.count_cons_self, List.length_cons, ih]
    · next hd => rw [List.count_cons_of_ne hd, ih]

end Text

namespace Location

/-- The place of a character of the text. -/
def IsAt (text : List Char) (loc : Location) : Prop :=
  ∃ front c back, text = front ++ c :: back ∧ loc = behind front

/-- The place of a character of the text, or of its end. -/
def IsIn (text : List Char) (loc : Location) : Prop :=
  ∃ front back, text = front ++ back ∧ loc = behind front

variable {text : List Char} {loc : Location}

theorem IsAt.isIn (h : loc.IsAt text) : loc.IsIn text := by
  obtain ⟨front, c, back, ht, hl⟩ := h
  exact ⟨front, c :: back, ht, hl⟩

theorem IsIn.isAt_or_eq (h : loc.IsIn text) : loc.IsAt text ∨ loc = behind text := by
  obtain ⟨front, back, rfl, hl⟩ := h
  cases back with
  | nil => exact .inr (by rw [hl, List.append_nil])
  | cons c back => exact .inl ⟨front, c, back, rfl, hl⟩

/-- A place in a text has a line. -/
theorem IsIn.one_le_line (h : loc.IsIn text) : 1 ≤ loc.line := by
  obtain ⟨front, back, -, rfl⟩ := h
  exact Nat.le_add_right 1 _

/-- A character stands on a line of the text. -/
theorem IsAt.line_le (h : loc.IsAt text) : loc.line ≤ (Text.lines text).length := by
  obtain ⟨front, c, back, rfl, rfl⟩ := h
  rw [behind, Nat.add_comm]
  exact Text.count_lt_length_linesFrom [] front c back

/-- The end of a text is on its last line, unless a line break stands in front of it. -/
theorem line_behind_le (hne : text ≠ []) (hlast : text.getLast? ≠ some '\n') :
    (behind text).line ≤ (Text.lines text).length := by
  obtain ⟨front, c, rfl⟩ := (List.eq_nil_or_concat text).resolve_left hne
  have hc : c ≠ '\n' := by simpa using hlast
  have hle := Text.count_lt_length_linesFrom [] front c []
  have hcount : (front ++ [c]).count '\n' = front.count '\n' := by simp [hc]
  rw [behind, List.concat_eq_append, hcount, Nat.add_comm]
  exact hle

/-- Behind a line break at the end, the end is one line further down. -/
theorem line_behind_concat (hlast : text.getLast? = some '\n') :
    (behind text).line = (Text.lines text).length + 1 := by
  obtain ⟨front, rfl⟩ := List.getLast?_eq_some_iff.1 hlast
  rw [behind, Text.lines, Text.length_linesFrom_concat]
  simp
  omega

end Location

/-! ## The places of tokens and faults -/

/-- A gap fails to end where a block comment opened. -/
theorem Gap.skip_fault_place {part : Gap} {loc : Location} {cs : List Char} {e : LexError}
    (h : skip part loc cs = .error e) : part = .block e.location ∨
      ∃ front back, cs = front ++ back ∧ e.location = loc.after front := by
  -- a fault behind the characters `word` is one behind more of them
  have hbehind (word : List Char) {cs : List Char} {loc : Location}
      (h : ∃ front back, cs = front ++ back ∧ e.location = (loc.after word).after front) :
      ∃ front back, word ++ cs = front ++ back ∧ e.location = loc.after front := by
    obtain ⟨front, back, rfl, hl⟩ := h
    exact ⟨word ++ front, back, (List.append_assoc ..).symm, by rw [hl, Location.after_append]⟩
  fun_induction skip part loc cs with
  | case1 opened loc =>
    obtain rfl := Except.error.inj h
    exact .inl rfl
  | case2 opened loc cs ih => exact .inr (hbehind ['*', '/'] ((ih h).resolve_left (by simp)))
  | case3 loc opened c cs hnot ih => exact (ih h).imp_right (hbehind [c])
  | case4 | case6 | case11 => cases h
  | case5 loc c cs ih =>
    exact .inr (hbehind [c] ((ih h).resolve_left (by split <;> simp)))
  | case7 loc cs ih => exact .inr (hbehind ['/', '/'] ((ih h).resolve_left (by simp)))
  | case8 loc cs ih =>
    obtain hb | hf := ih h
    · exact .inr ⟨[], _, rfl, (Gap.block.inj hb).symm⟩
    · exact .inr (hbehind ['/', '*'] hf)
  | case9 loc c cs _ _ hb ih => exact .inr (hbehind [c] ((ih h).resolve_left (by simp)))
  | case10 loc cs _ _ _ ih => exact .inr (hbehind ['#'] ((ih h).resolve_left (by simp)))

namespace Lexeme

variable {loc : Location} {cs : List Char} {e : LexError}

theorem closeChar_fault_place {spelled : List Char} {value : UInt8}
    (h : closeChar loc spelled value cs = .error e) :
    ∃ front back, spelled ++ cs = front ++ back ∧ e.location = loc.after front := by
  cases cs with
  | nil =>
    obtain rfl := Except.error.inj h
    exact ⟨spelled, [], rfl, rfl⟩
  | cons c cs =>
    rw [closeChar] at h
    split at h
    · cases h
    · obtain rfl := Except.error.inj h
      exact ⟨spelled ++ [c], cs, by simp, rfl⟩

theorem charLiteral_fault_place (h : charLiteral loc cs = .error e) :
    ∃ front back, quote :: cs = front ++ back ∧ e.location = loc.after front := by
  unfold charLiteral at h
  split at h
  · obtain rfl := Except.error.inj h
    exact ⟨[quote], [], rfl, rfl⟩
  · obtain rfl := Except.error.inj h
    exact ⟨[quote, '\\'], [], rfl, rfl⟩
  · next c cs =>
    split at h
    · exact closeChar_fault_place h
    · obtain rfl := Except.error.inj h
      exact ⟨[quote, '\\', c], cs, rfl, rfl⟩
  · split at h
    · exact closeChar_fault_place h
    · obtain rfl := Except.error.inj h
      exact ⟨[], _, rfl, rfl⟩

/-- A fault in a lexeme is at its start, in it or behind it. -/
theorem scan_fault_place {c : Char} (h : scan loc c cs = .error e) :
    ∃ front back, c :: cs = front ++ back ∧ e.location = loc.after front := by
  have hstart (h : e.location = loc) :
      ∃ front back, c :: cs = front ++ back ∧ e.location = loc.after front :=
    ⟨[], _, rfl, h⟩
  unfold scan at h
  split at h
  · next hc => exact hc ▸ charLiteral_fault_place h
  split at h
  · simp only [number] at h
    (repeat' split at h) <;> cases h
    · exact hstart rfl
    · exact hstart rfl
  split at h
  · cases h
  split at h
  · cases h
  · obtain rfl := Except.error.inj h
    exact hstart rfl

end Lexeme

/-- The tokens of a text stand at characters of it, and its end is known. -/
theorem tokensFrom_places {loc : Location} {before cs : List Char} {ts : TokenList}
    (hloc : loc = .behind before) (h : tokensFrom loc cs = .ok ts) :
    (∀ t ∈ ts.tokens, t.location.IsAt (before ++ cs)) ∧ ts.stop = .behind (before ++ cs) := by
  fun_induction tokensFrom loc cs generalizing before ts with
  | case1 | case3 => cases h
  | case2 loc cs stop hg =>
    obtain rfl := Except.ok.inj h
    obtain ⟨gap, rfl, hl, -⟩ := Gap.skip_covers hg
    refine ⟨by simp, ?_⟩
    dsimp only at hl ⊢
    rw [hl, hloc, Location.behind_after, List.append_nil]
  | case4 loc cs place c r hg l hs ih =>
    obtain ⟨us, hus, rfl⟩ := exists_of_map_ok h
    obtain ⟨gap, rfl, hl, -⟩ := Gap.skip_covers hg
    dsimp only at hl
    rw [hloc, Location.behind_after] at hl
    have hword := (Lexeme.scan_splits hs).1
    have hplace : place.after l.spelling = .behind (before ++ gap ++ l.spelling) := by
      rw [hl, Location.behind_after]
    obtain ⟨htokens, hstop⟩ := ih hplace hus
    rw [List.append_assoc, hword, List.append_assoc] at htokens hstop
    refine ⟨List.forall_mem_cons.2 ⟨⟨before ++ gap, c, r, ?_, hl⟩, htokens⟩, hstop⟩
    rw [List.append_assoc]

/-- A text that is not cut into tokens has its fault at a place in it. -/
theorem tokensFrom_fault_place {loc : Location} {before cs : List Char} {e : LexError}
    (hloc : loc = .behind before) (h : tokensFrom loc cs = .error e) :
    e.location.IsIn (before ++ cs) := by
  fun_induction tokensFrom loc cs generalizing before with
  | case1 loc cs e' hg =>
    obtain rfl := Except.error.inj h
    obtain hb | ⟨front, back, rfl, hl⟩ := Gap.skip_fault_place hg
    · cases hb
    · exact ⟨before ++ front, back, (List.append_assoc ..).symm, by
        rw [hl, hloc, Location.behind_after]⟩
  | case2 => cases h
  | case3 loc cs place c r hg e' hs =>
    obtain rfl := Except.error.inj h
    obtain ⟨gap, rfl, hl, -⟩ := Gap.skip_covers hg
    obtain ⟨front, back, hf, he⟩ := Lexeme.scan_fault_place hs
    dsimp only at hl ⊢
    refine ⟨before ++ gap ++ front, back, by simp [hf], ?_⟩
    rw [he, hl, hloc, Location.behind_after, Location.behind_after]
  | case4 loc cs place c r hg l hs ih =>
    obtain ⟨gap, rfl, hl, -⟩ := Gap.skip_covers hg
    dsimp only at hl
    have hword := (Lexeme.scan_splits hs).1
    have hrest : tokensFrom (place.after l.spelling) l.rest = .error e := by
      cases hts : tokensFrom (place.after l.spelling) l.rest with
      | error e' =>
        rw [hts] at h
        exact congrArg _ (Except.error.inj h)
      | ok ts =>
        rw [hts] at h
        cases h
    have hplace : place.after l.spelling = .behind (before ++ gap ++ l.spelling) := by
      rw [hl, hloc, Location.behind_after, Location.behind_after]
    have hin := ih hplace hrest
    rwa [List.append_assoc, hword, List.append_assoc] at hin

/-- The tokens of a text stand at characters of it. -/
theorem tokenize_places {source : String} {ts : TokenList} (h : tokenize source = .ok ts) :
    (∀ t ∈ ts.tokens, t.location.IsAt source.toList) ∧ ts.stop = .behind source.toList :=
  @tokensFrom_places .start [] source.toList ts rfl h

/-- What keeps a text from being cut into tokens is at a place in it. -/
theorem tokenize_fault_place {source : String} {e : LexError} (h : tokenize source = .error e) :
    e.location.IsIn source.toList :=
  @tokensFrom_fault_place .start [] source.toList e rfl h

end MiniC
