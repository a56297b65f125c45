import MiniC.Proofs.Token.Splitting

/-!
# What is printed is read back

A `Word` is a token that is no float, spelled in one of the ways it can be. A `Separator` begins
with a blank and goes on with blanks, comments and directives, each of which comes to its end
(`IsClosedGap`). `joined separators words` is the text of the words with separators between them.

Whatever the separators are, the text is cut into the tokens of the words (`tokenize_joined`). A
blank ends every word (`Word.scan_append`), and what is behind it in a separator is passed over up
to the next word (`Gap.skip_append`).
-/

namespace MiniC

/-! ## Separators -/

/-- A run of blanks, comments and directives. Each line comment and each directive ends with a line
break, each block comment with its first `*/`. -/
inductive IsClosedGap : List Char → Prop
  | nil : IsClosedGap []
  | blank {c : Char} {gap : List Char} (hc : IsBlank c) (h : IsClosedGap gap) :
    IsClosedGap (c :: gap)
  | line {mark body gap : List Char} (hm : OpensLine mark) (hb : '\n' ∉ body)
      (h : IsClosedGap gap) : IsClosedGap (mark ++ (body ++ '\n' :: gap))
  | block {body gap : List Char} (hb : ¬['*', '/'] <:+: body) (h : IsClosedGap gap) :
    IsClosedGap ('/' :: '*' :: (body ++ '*' :: '/' :: gap))

/-- What stands between two words. -/
structure Separator where
  first : Char
  rest : List Char
  isBlank : IsBlank first
  isClosed : IsClosedGap rest

/-- The characters of a separator. -/
def Separator.text (s : Separator) : List Char := s.first :: s.rest

theorem Separator.isClosedGap_text (s : Separator) : IsClosedGap s.text :=
  .blank s.isBlank s.isClosed

theorem isBlank_cases {c : Char} (h : IsBlank c) : c = ' ' ∨ c = '\t' ∨ c = '\r' ∨ c = '\n' := by
  simpa [IsBlank] using h

theorem opensGap_of_isBlank {c : Char} (hc : IsBlank c) (cs : List Char) : OpensGap (c :: cs) := by
  unfold OpensGap
  split
  · trivial
  · trivial
  · trivial
  · next heq =>
    obtain ⟨rfl, -⟩ := List.cons.inj heq
    exact hc
  · next heq => cases heq

/-- The characters that a gap can begin with. -/
def gapStarts : List Char := ['/', '#', ' ', '\t', '\r', '\n']

theorem mem_gapStarts_of_opensGap {c : Char} {cs : List Char} (h : OpensGap (c :: cs)) :
    c ∈ gapStarts := by
  unfold OpensGap at h
  split at h <;> rename_i heq <;> injection heq <;> subst_vars
  · decide
  · decide
  · decide
  · obtain rfl | rfl | rfl | rfl := isBlank_cases h
    all_goals decide

namespace Gap

/-- In front of a word there is no gap to pass over. -/
theorem skip_of_not_opensGap {cs : List Char} (h : ¬OpensGap cs) (loc : Location) :
    skip .blank loc cs = .ok ⟨loc, cs⟩ := by
  match cs with
  | [] => rfl
  | c :: cs =>
    have hb : ¬isBlank c = true := fun hc => h (opensGap_of_isBlank (isBlank_iff.1 hc) cs)
    have hh : c ≠ '#' := by
      rintro rfl
      exact h trivial
    rw [skip, if_neg hb, if_neg hh]
    · rintro cs rfl rfl
      exact h trivial
    · rintro cs rfl rfl
      exact h trivial

theorem skip_blank {c : Char} (hc : IsBlank c) (loc : Location) (cs : List Char) :
    skip .blank loc (c :: cs) = skip .blank (loc.advance c) cs := by
  obtain rfl | rfl | rfl | rfl := isBlank_cases hc
  all_goals rfl

theorem skip_mark {mark : List Char} (hm : OpensLine mark) (loc : Location) (cs : List Char) :
    skip .blank loc (mark ++ cs) = skip .line (loc.after mark) cs := by
  obtain rfl | rfl := hm
  · rfl
  · rfl

theorem skip_line {body : List Char} (hb : '\n' ∉ body) (loc : Location) (cs : List Char) :
    skip .line loc (body ++ '\n' :: cs) = skip .blank (loc.after (body ++ ['\n'])) cs := by
  induction body generalizing loc with
  | nil => rfl
  | cons c body ih =>
    obtain ⟨hc, hb⟩ := List.ne_and_not_mem_of_not_mem_cons hb
    change skip (if c = '\n' then .blank else .line) (loc.advance c) (body ++ '\n' :: cs) = _
    rw [if_neg hc.symm, ih hb]
    rfl

theorem skip_block {body : List Char} (hb : ¬['*', '/'] <:+: body) (opened loc : Location)
    (cs : List Char) : skip (.block opened) loc (body ++ '*' :: '/' :: cs) =
      skip .blank (loc.after (body ++ ['*', '/'])) cs := by
  induction body generalizing loc with
  | nil => rfl
  | cons c body ih =>
    rw [List.infix_cons_iff, not_or] at hb
    rw [List.cons_append, skip, ih hb.2]
    · rfl
    · -- the body has no end of its own, and none begins with its last character
      rintro ds rfl hd
      cases body with
      | nil => cases hd
      | cons d body =>
        obtain ⟨rfl, -⟩ := List.cons.inj hd
        exact hb.1 (by simp)

/-- A separator is passed over up to the word behind it. -/
theorem skip_append {gap rest : List Char} (h : IsClosedGap gap) (hr : ¬OpensGap rest)
    (loc : Location) : skip .blank loc (gap ++ rest) = .ok ⟨loc.after gap, rest⟩ := by
  induction h generalizing loc with
  | nil => exact skip_of_not_opensGap hr loc
  | blank hc h ih => rw [List.cons_append, skip_blank hc, ih, Location.after_cons]
  | @line mark body gap hm hb h ih =>
    simp only [List.append_assoc, List.cons_append, skip_mark hm, skip_line hb, ih]
    simp [Location.after_append]
  | @block body gap hb h ih =>
    have hopen (cs : List Char) : skip .blank loc ('/' :: '*' :: cs) =
        skip (.block loc) (loc.after ['/', '*']) cs := rfl
    simp only [List.append_assoc, List.cons_append, hopen, skip_block hb, ih]
    simp [Location.after_append]

end Gap

/-! ## Words -/

/-- A token that is no float, as it is written. -/
structure Word where
  kind : Token.Kind
  spelling : List Char
  spelled : kind.Spelled spelling
  notFloat : ∀ x, kind ≠ .literal (.float x)

theorem DataType.exists_name_eq (t : DataType) : ∃ c cs, t.name.toList = c :: cs ∧
    Lexeme.isNameStart c ∧ ∀ d ∈ cs, Lexeme.isNameChar d := by
  cases t <;> exact ⟨_, _, rfl, by decide, List.all_eq_true.1 (by decide)⟩

theorem Keyword.exists_spelling_eq (k : Keyword) : ∃ c cs, k.spelling.toList = c :: cs ∧
    Lexeme.isNameStart c ∧ ∀ d ∈ cs, Lexeme.isNameChar d := by
  cases k <;> exact ⟨_, _, rfl, by decide, List.all_eq_true.1 (by decide)⟩

theorem Punct.spelling_ne_nil (p : Punct) : p.spelling.toList ≠ [] := by
  cases p <;> decide

namespace Token.Kind

theorem ofWord_of_not_reserved {word : List Char} (h : ¬Reserved word) :
    ofWord (String.ofList word) = .name (String.ofList word) := by
  have hword {text : String} (ht : text = String.ofList word) : word = text.toList := by
    rw [ht, String.toList_ofList]
  unfold ofWord
  split
  · next t ht => exact (h (.inl ⟨t, hword (by simpa using List.find?_some ht)⟩)).elim
  · next k _ hk => exact (h (.inr ⟨k, hword (by simpa using List.find?_some hk)⟩)).elim
  · rfl

theorem ofWord_type (t : DataType) : ofWord t.name = .type t := by
  cases t <;> rfl

theorem ofWord_keyword (k : Keyword) : ofWord k.spelling = .keyword k := by
  cases k <;> rfl

end Token.Kind

namespace Lexeme

/-- The text ends here, or goes on with a blank. -/
def Delimits (rest : List Char) : Prop := ∀ c ∈ rest.head?, IsBlank c

theorem isNameChar_of_isBlank {c : Char} (h : IsBlank c) : isNameChar c = false := by
  obtain rfl | rfl | rfl | rfl := isBlank_cases h
  all_goals decide

theorem isDigit_of_isNameStart {c : Char} (h : isNameStart c = true) : c.isDigit = false := by
  simp only [isNameStart, Char.isAlpha, Char.isUpper, Char.isLower, Bool.or_eq_true,
    Bool.and_eq_true, decide_eq_true_eq] at h
  by_contra hd
  simp only [Char.isDigit, Bool.not_eq_false, Bool.and_eq_true, decide_eq_true_eq] at hd
  rcases h with (h | h) | rfl
  · grind
  · grind
  · exact absurd hd (by decide)

theorem startsNumber_eq_false {c : Char} (hd : c.isDigit = false) (hp : c ≠ '.') (cs : List Char) :
    startsNumber (c :: cs) = false := by
  cases cs <;> simp [startsNumber, hd, hp]

variable {rest : List Char}

theorem word_append {word : List Char} (hw : ∀ d ∈ word, isNameChar d) (hr : Delimits rest) :
    Lexeme.word (word ++ rest) = ⟨.ofWord (String.ofList word), word, rest⟩ := by
  have hrest : ∀ b ∈ rest.head?, isNameChar b = false := fun b hb =>
    isNameChar_of_isBlank (hr b hb)
  rw [Lexeme.word, Text.takeWhile_run hw hrest, Text.dropWhile_run hw hrest]

theorem scan_word {c : Char} {cs : List Char} (hc : isNameStart c) (hcs : ∀ d ∈ cs, isNameChar d)
    (hr : Delimits rest) (loc : Location) :
    scan loc c (cs ++ rest) = .ok ⟨.ofWord (String.ofList (c :: cs)), c :: cs, rest⟩ := by
  have hq : c ≠ quote := by
    rintro rfl
    exact absurd hc (by decide)
  have hp : c ≠ '.' := by
    rintro rfl
    exact absurd hc (by decide)
  have hn := startsNumber_eq_false (isDigit_of_isNameStart hc) hp (cs ++ rest)
  have hw : ∀ d ∈ c :: cs, isNameChar d :=
    List.forall_mem_cons.2 ⟨isNameChar_of_isNameStart hc, hcs⟩
  rw [scan, if_neg hq, hn, if_neg Bool.false_ne_true, if_pos hc, ← List.cons_append,
    word_append hw hr]

theorem single?_of_spelling {p : Punct} {c : Char} (h : p.spelling.toList = [c]) :
    Punct.single? c = some p := by
  cases p <;> cases h <;> rfl

/-- No punctuator goes on with a blank. -/
theorem pair?_eq_none_of_isBlank {b : Char} (hb : IsBlank b) (c : Char) :
    Punct.pair? c b = none := by
  obtain rfl | rfl | rfl | rfl := isBlank_cases hb
  all_goals simp [Punct.pair?]

theorem punctuator?_append (p : Punct) (hr : Delimits rest) :
    punctuator? (p.spelling.toList ++ rest) = some ⟨.punct p, p.spelling.toList, rest⟩ := by
  have hlen := p.length_spelling_le
  match h : p.spelling.toList with
  | [] => cases p <;> cases h
  | [c] =>
    cases rest with
    | nil => simp [punctuator?, single?_of_spelling h]
    | cons b rest =>
      simp [punctuator?, pair?_eq_none_of_isBlank (hr b rfl), single?_of_spelling h]
  | [c, d] => simp [punctuator?, Punct.pair?_of_spelling h]
  | c :: d :: e :: _ => simp [h] at hlen

theorem scan_punct (p : Punct) {c : Char} {cs : List Char} (hp : p.spelling.toList = c :: cs)
    (hr : Delimits rest) (loc : Location) :
    scan loc c (cs ++ rest) = .ok ⟨.punct p, c :: cs, rest⟩ := by
  have hc : c ≠ quote ∧ c.isDigit = false ∧ c ≠ '.' ∧ isNameStart c = false := by
    cases p <;> cases hp <;> decide
  obtain ⟨hq, hd, hdot, hn⟩ := hc
  rw [scan, if_neg hq, startsNumber_eq_false hd hdot, if_neg Bool.false_ne_true, hn,
    if_neg Bool.false_ne_true, ← List.cons_append, ← hp, punctuator?_append p hr]

theorem splitNumber_digits {ds : List Char} (hd : ∀ c ∈ ds, c.isDigit) (hr : Delimits rest) :
    splitNumber .whole (ds ++ rest) = (ds, rest) := by
  induction ds with
  | nil =>
    cases rest with
    | nil => rfl
    | cons b rest =>
      obtain rfl | rfl | rfl | rfl := isBlank_cases (hr b rfl)
      all_goals simp [splitNumber, Decimal.Numeral.isExponentMark]
  | cons d ds ih =>
    obtain ⟨hc, hd⟩ := List.forall_mem_cons.1 hd
    simp [splitNumber, hc, ih hd]

theorem scan_int {c : Char} {cs : List Char} (hd : Decimal.IsDigits (c :: cs)) {n : Int32}
    (hn : n.toInt = Decimal.ofDigits (c :: cs)) (hr : Delimits rest) (loc : Location) :
    scan loc c (cs ++ rest) = .ok ⟨.literal (.int n), c :: cs, rest⟩ := by
  have hc := hd.2 c List.mem_cons_self
  have hq : c ≠ quote := by
    rintro rfl
    exact absurd hc (by decide)
  have hs : startsNumber (c :: (cs ++ rest)) = true := by
    cases h : cs ++ rest <;> simp [startsNumber, hc]
  have hall : (c :: cs).all Char.isDigit = true := List.all_eq_true.2 hd.2
  have hlt : Decimal.ofDigits (c :: cs) < Nat.pow 2 31 := by
    have hmax := n.toInt_lt
    rw [hn] at hmax
    exact_mod_cast hmax
  have hint : Int32.ofNat (Decimal.ofDigits (c :: cs)) = n := by
    rw [← Int32.toInt_inj, Int32.toInt_ofNat_of_lt hlt, hn]
  rw [scan, if_neg hq, if_pos hs, number, ← List.cons_append, splitNumber_digits hd.2 hr]
  simp only [hall, if_true, hlt, hint]

theorem escape?_of_escape {c : Char} {value : UInt8} (h : Escape c value) :
    escape? c = some value := by
  cases h <;> rfl

theorem scan_char {c : Char} {value : UInt8} (hc : c.toNat < 128) (hb : c ≠ '\\')
    (hv : value.toNat = c.toNat) (loc : Location) (rest : List Char) :
    scan loc quote (c :: quote :: rest) =
      .ok ⟨.literal (.char value), [quote, c, quote], rest⟩ := by
  have hvalue : c.toNat.toUInt8 = value := by
    rw [← UInt8.toNat_inj, hv, Nat.toUInt8, UInt8.toNat_ofNat']
    omega
  rw [scan, if_pos rfl]
  unfold charLiteral
  split
  · next heq => cases heq
  · next heq => cases heq
  · next heq => exact (hb (List.cons.inj heq).1).elim
  · next heq =>
    obtain ⟨rfl, rfl⟩ := List.cons.inj heq
    rw [if_pos hc, closeChar, if_pos rfl, hvalue]
    rfl

theorem scan_escaped {c : Char} {value : UInt8} (h : Escape c value) (loc : Location)
    (rest : List Char) : scan loc quote ('\\' :: c :: quote :: rest) =
      .ok ⟨.literal (.char value), [quote, '\\', c, quote], rest⟩ := by
  simp [scan, charLiteral, escape?_of_escape h, closeChar]

/-! ## No gap begins with a word -/

/-- No gap begins with a character of a class that has none of `gapStarts`. -/
theorem not_opensGap_of_all {p : Char → Bool} (hp : gapStarts.all fun d => !p d) {c : Char}
    (h : p c = true) (cs : List Char) : ¬OpensGap (c :: cs) := by
  intro ho
  have hc := List.all_eq_true.1 hp c (mem_gapStarts_of_opensGap ho)
  simp [h] at hc

theorem not_opensGap_quote (cs : List Char) : ¬OpensGap (quote :: cs) := fun ho =>
  absurd (mem_gapStarts_of_opensGap ho) (by decide)

/-- A slash opens no comment in front of a blank, and no other punctuator begins as a gap does. -/
theorem not_opensGap_punct (p : Punct) (hr : Delimits rest) :
    ¬OpensGap (p.spelling.toList ++ rest) := by
  have hslash : ¬IsBlank '/' := by simp [IsBlank]
  cases p with
  | slash =>
    cases rest with
    | nil => exact hslash
    | cons b rest =>
      obtain rfl | rfl | rfl | rfl := isBlank_cases (hr b rfl)
      all_goals exact hslash
  | slashEqual => exact hslash
  | _ => exact fun ho => absurd (mem_gapStarts_of_opensGap ho) (by decide)

end Lexeme

/-- A word in front of a blank or of the end is read as its token, and no gap begins with it. -/
theorem Word.scan_append (w : Word) {rest : List Char} (hr : Lexeme.Delimits rest)
    (loc : Location) :
    ∃ c cs, w.spelling = c :: cs ∧ ¬OpensGap (c :: (cs ++ rest)) ∧
      Lexeme.scan loc c (cs ++ rest) = .ok ⟨w.kind, w.spelling, rest⟩ := by
  obtain ⟨kind, spelling, spelled, notFloat⟩ := w
  -- a type specifier and a keyword are words of the language as names are
  have hword {c : Char} {cs : List Char} (hc : Lexeme.isNameStart c)
      (hcs : ∀ d ∈ cs, Lexeme.isNameChar d) (he : spelling = c :: cs)
      (hk : Token.Kind.ofWord (String.ofList (c :: cs)) = kind) :
      ∃ c cs, spelling = c :: cs ∧ ¬OpensGap (c :: (cs ++ rest)) ∧
        Lexeme.scan loc c (cs ++ rest) = .ok ⟨kind, spelling, rest⟩ :=
    ⟨c, cs, he, Lexeme.not_opensGap_of_all (by decide) hc _, by
      rw [he, ← hk]
      exact Lexeme.scan_word hc hcs hr loc⟩
  cases spelled with
  | name hc hcs hn => exact hword hc hcs rfl (Token.Kind.ofWord_of_not_reserved hn)
  | type t =>
    obtain ⟨c, cs, he, hc, hcs⟩ := t.exists_name_eq
    exact hword hc hcs he (by rw [← he, String.ofList_toList, Token.Kind.ofWord_type])
  | keyword k =>
    obtain ⟨c, cs, he, hc, hcs⟩ := k.exists_spelling_eq
    exact hword hc hcs he (by rw [← he, String.ofList_toList, Token.Kind.ofWord_keyword])
  | punct p =>
    obtain ⟨c, cs, hp⟩ := List.exists_cons_of_ne_nil p.spelling_ne_nil
    have ho := Lexeme.not_opensGap_punct p hr
    rw [hp] at ho
    refine ⟨c, cs, hp, ho, ?_⟩
    dsimp only
    rw [hp]
    exact Lexeme.scan_punct p hp hr loc
  | int hd hn =>
    obtain ⟨c, cs, rfl⟩ := List.exists_cons_of_ne_nil hd.1
    exact ⟨c, cs, rfl, Lexeme.not_opensGap_of_all (by decide) (hd.2 c List.mem_cons_self) _,
      Lexeme.scan_int hd hn hr loc⟩
  | float => exact (notFloat _ rfl).elim
  | char hc hb hv =>
    exact ⟨_, _, rfl, Lexeme.not_opensGap_quote _, Lexeme.scan_char hc hb hv loc rest⟩
  | escaped h => exact ⟨_, _, rfl, Lexeme.not_opensGap_quote _, Lexeme.scan_escaped h loc rest⟩

/-! ## Texts -/

/-- The words one behind the other, the separator with number `n` behind the word with number `n`
if another word follows. -/
def joined (separators : Nat → Separator) : List Word → List Char
  | [] => []
  | [w] => w.spelling
  | w :: v :: words =>
    w.spelling ++ ((separators 0).text ++ joined (fun n => separators (n + 1)) (v :: words))

theorem tokensFrom_gap {gap : List Char} (hg : IsClosedGap gap) (loc : Location) :
    tokensFrom loc gap = .ok ⟨[], loc.after gap⟩ := by
  have hnil : ¬OpensGap [] := id
  have hskip := Gap.skip_append hg hnil loc
  rw [List.append_nil] at hskip
  rw [tokensFrom]
  split <;> simp_all

/-- A word behind a separator, or at the start of a text, is the first token. -/
theorem tokensFrom_word (w : Word) {gap rest : List Char} (hg : IsClosedGap gap)
    (hr : Lexeme.Delimits rest) (loc : Location) :
    tokensFrom loc (gap ++ (w.spelling ++ rest)) =
      (tokensFrom ((loc.after gap).after w.spelling) rest).map fun ts =>
        ⟨⟨w.kind, loc.after gap⟩ :: ts.tokens, ts.stop⟩ := by
  obtain ⟨c, cs, hw, ho, hs⟩ := w.scan_append hr (loc.after gap)
  have hskip := Gap.skip_append hg ho loc
  rw [← List.cons_append, ← hw] at hskip
  rw [tokensFrom]
  split
  · next he => cases hskip.symm.trans he
  · next he =>
    have hrest := congrArg Cursor.rest (Except.ok.inj (hskip.symm.trans he))
    simp [hw] at hrest
  · next he =>
    have hcursor := Except.ok.inj (hskip.symm.trans he)
    rw [hw, List.cons_append] at hcursor
    obtain ⟨rfl, rfl, rfl⟩ := by simpa using hcursor
    split
    · next he => cases hs.symm.trans he
    · next he =>
      obtain rfl := Except.ok.inj (hs.symm.trans he)
      rfl

/-- The words of a text behind a separator, or at its start, are its tokens. -/
theorem tokensFrom_joined (separators : Nat → Separator) (words : List Word) {gap : List Char}
    (hg : IsClosedGap gap) (loc : Location) :
    ∃ ts, tokensFrom loc (gap ++ joined separators words) = .ok ts ∧
      ts.tokens.map Token.kind = words.map Word.kind := by
  fun_induction joined separators words generalizing gap loc with
  | case1 separators => exact ⟨_, by rw [List.append_nil, tokensFrom_gap hg], rfl⟩
  | case2 separators w =>
    have hr : Lexeme.Delimits [] := by simp [Lexeme.Delimits]
    have ht := tokensFrom_word w hg hr loc
    rw [List.append_nil, tokensFrom_gap .nil] at ht
    exact ⟨_, ht, rfl⟩
  | case3 separators w v words ih =>
    have hr : Lexeme.Delimits ((separators 0).text ++
        joined (fun n => separators (n + 1)) (v :: words)) := by
      rintro c ⟨⟩
      exact (separators 0).isBlank
    obtain ⟨ts, hts, hkinds⟩ :=
      ih (separators 0).isClosedGap_text ((loc.after gap).after w.spelling)
    refine ⟨_, (tokensFrom_word w hg hr loc).trans (by rw [hts]; rfl), ?_⟩
    simp [hkinds]

/-- Words with separators between them are cut into the tokens of the words. -/
theorem tokenize_joined (words : List Word) (separators : Nat → Separator) :
    ∃ ts, tokenize (String.ofList (joined separators words)) = .ok ts ∧
      ts.tokens.map Token.kind = words.map Word.kind := by
  rw [tokenize, String.toList_ofList]
  exact tokensFrom_joined separators words .nil .start

/-- A directive begins in mid-line, a line comment stands before a slash and a block comment before
a number, and the literals are a slash and a line break. -/
theorem tokenize_slash_behind_comment :
    ∃ (words : List Word) (separators : Nat → Separator) (ts : TokenList),
      String.ofList (joined separators words) = "if # y\nx\t//\n/ /**/007\r'/' '\\n'" ∧
      tokenize "if # y\nx\t//\n/ /**/007\r'/' '\\n'" = .ok ts ∧
      ts.tokens.map Token.kind = [.keyword .ifKw, .name "x", .punct .slash, .literal (.int 7),
        .literal (.char 47), .literal (.char 10)] := by
  have hname : ¬Token.Kind.Reserved ['x'] := by
    rintro (⟨t, h⟩ | ⟨k, h⟩)
    · revert h
      cases t <;> decide
    · revert h
      cases k <;> decide
  have hx : Token.Kind.Spelled ['x'] (.name "x") := .name (by decide) nofun hname
  have hnumber : Decimal.IsDigits ['0', '0', '7'] := ⟨nofun, List.all_eq_true.1 rfl⟩
  have hvalue : Int32.toInt 7 = Decimal.ofDigits ['0', '0', '7'] := by decide
  have hslash : Token.Kind.Spelled ['\x27', '/', '\x27'] (.literal (.char 47)) :=
    .char (by decide) (by decide) rfl
  let words : List Word :=
    [⟨_, _, .keyword .ifKw, nofun⟩, ⟨_, _, hx, nofun⟩, ⟨_, _, .punct .slash, nofun⟩,
      ⟨_, _, .int hnumber hvalue, nofun⟩, ⟨_, _, hslash, nofun⟩, ⟨_, _, .escaped .lineFeed, nofun⟩]
  have hdirective : IsClosedGap (['#'] ++ ([' ', 'y'] ++ ['\n'])) :=
    .line (.inr rfl) (by decide) .nil
  have hline : IsClosedGap (['/', '/'] ++ ([] ++ ['\n'])) := .line (.inl rfl) nofun .nil
  have hblock : IsClosedGap ('/' :: '*' :: ([] ++ ['*', '/'])) := .block (by decide) .nil
  let separators : Nat → Separator
    | 0 => ⟨' ', _, by simp [IsBlank], hdirective⟩
    | 1 => ⟨'\t', _, by simp [IsBlank], hline⟩
    | 2 => ⟨' ', _, by simp [IsBlank], hblock⟩
    | 3 => ⟨'\r', _, by simp [IsBlank], .nil⟩
    | _ => ⟨' ', _, by simp [IsBlank], .nil⟩
  have htext : String.ofList (joined separators words) =
      "if # y\nx\t//\n/ /**/007\r'/' '\\n'" := rfl
  obtain ⟨ts, hts, hkinds⟩ := tokenize_joined words separators
  exact ⟨words, separators, ts, htext, htext ▸ hts, hkinds⟩

end MiniC
