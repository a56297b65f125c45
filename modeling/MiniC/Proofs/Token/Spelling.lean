import MiniC.Text.Run
import MiniC.Token.Lexeme

/-!
# How a token is spelled

`Token.Kind.Spelled word kind` says that the characters `word` are a way to write the kind. A
keyword and a punctuator have one spelling, a name is its own. An integer may have zeros in front, a
float is a `Decimal.Numeral.Written` numeral with a point or an exponent and an optional suffix, and
a character stands for itself or is escaped.

`Token.Kind.Stops word kind rest` says that a word reaches as far as it can : no name goes on behind
it, and no punctuator is longer. What `Lexeme.scan` reads is spelled and stops
(`Lexeme.scan_spelled`, `Lexeme.scan_stops`).
-/

namespace MiniC

/-! ## Numerals -/

namespace Decimal

/-- A nonempty run of decimal digits. -/
def IsDigits (cs : List Char) : Prop := cs ≠ [] ∧ ∀ c ∈ cs, c.isDigit

namespace Numeral

/-- The spellings of an exponent at the end of a numeral. -/
inductive WrittenExponent : List Char → Int → Prop
  | absent : WrittenExponent [] 0
  | unsigned {mark : Char} {ds : List Char} (hm : mark = 'e' ∨ mark = 'E') (hd : IsDigits ds) :
    WrittenExponent (mark :: ds) (ofDigits ds)
  | plus {mark : Char} {ds : List Char} (hm : mark = 'e' ∨ mark = 'E') (hd : IsDigits ds) :
    WrittenExponent (mark :: '+' :: ds) (ofDigits ds)
  | minus {mark : Char} {ds : List Char} (hm : mark = 'e' ∨ mark = 'E') (hd : IsDigits ds) :
    WrittenExponent (mark :: '-' :: ds) (-ofDigits ds)

/-- The spellings of a numeral : digits, a point with digits on either side of it or on both, and an
exponent. -/
inductive Written : List Char → Numeral → Prop
  | whole {ds exponent : List Char} {e : Int} (hd : IsDigits ds) (he : WrittenExponent exponent e) :
    Written (ds ++ exponent) ⟨ofDigits ds, e⟩
  | pointed {ds part exponent : List Char} {e : Int} (hd : IsDigits (ds ++ part))
      (he : WrittenExponent exponent e) :
    Written (ds ++ '.' :: part ++ exponent) ⟨ofDigits (ds ++ part), e - part.length⟩

end Numeral

end Decimal

/-! ## Tokens -/

/-- The characters behind a backslash, and what they stand for. -/
inductive Escape : Char → UInt8 → Prop
  | lineFeed : Escape 'n' 10
  | tab : Escape 't' 9
  | carriageReturn : Escape 'r' 13
  | backslash : Escape '\\' 92
  | quote : Escape '\x27' 39
  | zero : Escape '0' 0

namespace Token.Kind

/-- The word is a type specifier or another keyword. -/
def Reserved (word : List Char) : Prop :=
  (∃ t : DataType, word = t.name.toList) ∨ ∃ k : Keyword, word = k.spelling.toList

/-- The spellings of a kind of token. -/
inductive Spelled : List Char → Kind → Prop
  | name {c : Char} {cs : List Char} (hc : Lexeme.isNameStart c) (hcs : ∀ d ∈ cs, Lexeme.isNameChar d)
      (hr : ¬Reserved (c :: cs)) : Spelled (c :: cs) (.name (String.ofList (c :: cs)))
  | type (t : DataType) : Spelled t.name.toList (.type t)
  | keyword (k : Keyword) : Spelled k.spelling.toList (.keyword k)
  | punct (p : Punct) : Spelled p.spelling.toList (.punct p)
  | int {ds : List Char} (hd : Decimal.IsDigits ds) {n : Int32} (hn : n.toInt = Decimal.ofDigits ds) :
    Spelled ds (.literal (.int n))
  | float {cs suffix : List Char} {n : Decimal.Numeral} (hw : n.Written cs)
      (hd : ¬Decimal.IsDigits cs) (hs : suffix = [] ∨ suffix = ['f'] ∨ suffix = ['F']) :
    Spelled (cs ++ suffix) (.literal (.float n.toFloat32))
  | char {c : Char} {value : UInt8} (hc : c.toNat < 128) (hb : c ≠ '\\')
      (hv : value.toNat = c.toNat) : Spelled ['\x27', c, '\x27'] (.literal (.char value))
  | escaped {c : Char} {value : UInt8} (h : Escape c value) :
    Spelled ['\x27', '\\', c, '\x27'] (.literal (.char value))

/-- Behind the word of a token stands nothing that could go on with it : no character of a name
behind a name or a keyword, and none that makes another punctuator of one. -/
def Stops (word : List Char) (kind : Kind) (rest : List Char) : Prop :=
  match kind with
  | .name _ | .type _ | .keyword _ => ∀ c ∈ rest.head?, Lexeme.isNameChar c = false
  | .punct _ => ∀ c ∈ rest.head?, ∀ q : Punct, q.spelling.toList ≠ word ++ [c]
  | .literal _ => True

end Token.Kind

/-! ## What is read is spelled -/

namespace Decimal.Numeral

theorem isDigits_of_natural? {cs : List Char} {n : Nat} (h : natural? cs = some n) :
    IsDigits cs ∧ n = ofDigits cs := by
  unfold natural? at h
  split at h
  · next hc => exact ⟨⟨hc.1, List.all_eq_true.1 hc.2⟩, (Option.some.inj h).symm⟩
  · cases h

theorem mark_of_isExponentMark {c : Char} (h : isExponentMark c = true) : c = 'e' ∨ c = 'E' := by
  simpa only [isExponentMark, Bool.or_eq_true, decide_eq_true_eq] using h

theorem writtenExponent_of_exponent? {cs : List Char} {e : Int} (h : exponent? cs = some e) :
    WrittenExponent cs e := by
  fun_cases exponent? cs with
  | case1 =>
    obtain rfl := Option.some.inj h
    exact .absent
  | case2 => cases h
  | case3 => simp_all [exponent?]
  | case4 mark cs hm =>
    have hm := mark_of_isExponentMark (by simpa using hm)
    cases hn : natural? cs with
    | none => simp_all [exponent?]
    | some n =>
      obtain ⟨hd, rfl⟩ := isDigits_of_natural? hn
      obtain rfl : -(ofDigits cs : Int) = e := by simp_all [exponent?]
      exact .minus hm hd
  | case5 mark cs hm =>
    have hm := mark_of_isExponentMark (by simpa using hm)
    cases hn : natural? cs with
    | none => simp_all [exponent?]
    | some n =>
      obtain ⟨hd, rfl⟩ := isDigits_of_natural? hn
      obtain rfl : (ofDigits cs : Int) = e := by simp_all [exponent?]
      exact .plus hm hd
  | case6 mark sign cs hm hminus hplus =>
    have hm := mark_of_isExponentMark (by simpa using hm)
    cases hn : natural? (sign :: cs) with
    | none => simp_all [exponent?]
    | some n =>
      obtain ⟨hd, rfl⟩ := isDigits_of_natural? hn
      obtain rfl : (ofDigits (sign :: cs) : Int) = e := by simp_all [exponent?]
      exact .unsigned hm hd

/-- What is read as a numeral is a spelling of it. -/
theorem written_of_read? {cs : List Char} {n : Numeral} (h : read? cs = some n) : n.Written cs := by
  have hd : ∀ ds : List Char, ∀ c ∈ ds.takeWhile Char.isDigit, c.isDigit := fun ds =>
    List.all_eq_true.1 List.all_takeWhile
  have hw := hd cs
  have hcs : cs.takeWhile Char.isDigit ++ cs.dropWhile Char.isDigit = cs :=
    List.takeWhile_append_dropWhile
  simp only [read?] at h
  generalize cs.takeWhile Char.isDigit = whole at *
  generalize cs.dropWhile Char.isDigit = behind at *
  subst hcs
  split at h
  · next r =>
    split at h
    · cases h
    next hne =>
    obtain ⟨e, he, rfl⟩ := Option.map_eq_some_iff.1 h
    have hr : r = r.takeWhile Char.isDigit ++ r.dropWhile Char.isDigit :=
      List.takeWhile_append_dropWhile.symm
    have hp := hd r
    dsimp only at he hne ⊢
    generalize r.takeWhile Char.isDigit = part at *
    generalize r.dropWhile Char.isDigit = exponent at *
    subst hr
    have hdigits : IsDigits (whole ++ part) :=
      ⟨by simpa using hne, by
        simpa only [List.mem_append, or_imp, forall_and] using And.intro hw hp⟩
    simpa only [List.append_assoc, List.cons_append] using
      Written.pointed hdigits (writtenExponent_of_exponent? he)
  · split at h
    · cases h
    next hne =>
    obtain ⟨e, he, rfl⟩ := Option.map_eq_some_iff.1 h
    have hdigits : IsDigits whole := ⟨by simpa using hne, hw⟩
    simpa using Written.whole hdigits (writtenExponent_of_exponent? he)

end Decimal.Numeral

namespace Punct

theorem spelling_of_single? {c : Char} {p : Punct} (h : single? c = some p) :
    p.spelling.toList = [c] := by
  unfold single? at h
  split at h <;> cases h <;> rfl

theorem spelling_of_pair? {c d : Char} {p : Punct} (h : pair? c d = some p) :
    p.spelling.toList = [c, d] := by
  unfold pair? at h
  split at h
  · next hd =>
    subst hd
    split at h <;> cases h <;> rfl
  split at h
  · next hcd =>
    obtain ⟨⟨rfl, rfl⟩, rfl⟩ := And.intro hcd (Option.some.inj h)
    rfl
  split at h
  · next hcd =>
    obtain ⟨⟨rfl, rfl⟩, rfl⟩ := And.intro hcd (Option.some.inj h)
    rfl
  · cases h

/-- Whatever punctuator is spelled with two characters, these two find it. -/
theorem pair?_of_spelling {c d : Char} {p : Punct} (h : p.spelling.toList = [c, d]) :
    pair? c d = some p := by
  cases p <;> cases h <;> rfl

theorem length_spelling_le (p : Punct) : p.spelling.toList.length ≤ 2 := by
  cases p <;> decide

end Punct

namespace Token.Kind

/-- A word is a type specifier or a keyword where there is one of its spelling, and a name where
there is none. -/
theorem ofWord_spelled {c : Char} {cs : List Char} (hc : Lexeme.isNameStart c)
    (hcs : ∀ d ∈ cs, Lexeme.isNameChar d) :
    Spelled (c :: cs) (ofWord (String.ofList (c :: cs))) := by
  have hword {text : String} (h : text = String.ofList (c :: cs)) : c :: cs = text.toList := by
    rw [h, String.toList_ofList]
  unfold ofWord
  split
  · next t ht =>
    rw [hword (by simpa using List.find?_some ht)]
    exact .type t
  · next k _ hk =>
    rw [hword (by simpa using List.find?_some hk)]
    exact .keyword k
  · next ht hk =>
    refine .name hc hcs ?_
    rintro (⟨t, h⟩ | ⟨k, h⟩)
    · refine List.find?_eq_none.1 ht t (by cases t <;> decide) ?_
      simp [h]
    · refine List.find?_eq_none.1 hk k (by cases k <;> decide) ?_
      simp [h]

theorem ofWord_stops {word : String} {spelling rest : List Char}
    (h : ∀ c ∈ rest.head?, Lexeme.isNameChar c = false) :
    Stops spelling (ofWord word) rest := by
  unfold ofWord
  split <;> exact h

end Token.Kind

namespace Lexeme

/-- The lexeme is spelled as its kind can be and reaches as far as it can. -/
structure WellRead (l : Lexeme) : Prop where
  spelled : l.kind.Spelled l.spelling
  stops : l.kind.Stops l.spelling l.rest

theorem escape_of_escape? {c : Char} {value : UInt8} (h : escape? c = some value) :
    Escape c value := by
  fun_cases escape? c <;> simp_all [escape?] <;> subst_vars <;> constructor

theorem closeChar_eq_ok {loc : Location} {spelled cs : List Char} {value : UInt8} {l : Lexeme}
    (h : closeChar loc spelled value cs = .ok l) :
    l = ⟨.literal (.char value), spelled ++ [quote], cs.tail⟩ := by
  fun_cases closeChar loc spelled value cs <;> simp_all [closeChar]

theorem charLiteral_wellRead {loc : Location} {cs : List Char} {l : Lexeme}
    (h : charLiteral loc cs = .ok l) : l.WellRead := by
  unfold charLiteral at h
  split at h
  · cases h
  · cases h
  · split at h
    · next he =>
      obtain rfl := closeChar_eq_ok h
      exact ⟨.escaped (escape_of_escape? he), trivial⟩
    · cases h
  · next c cs hb hb' =>
    split at h
    · next hc =>
      obtain rfl := closeChar_eq_ok h
      refine ⟨.char hc ?_ ?_, trivial⟩
      · rintro rfl
        cases cs with
        | nil => exact hb rfl rfl
        | cons d ds => exact hb' d ds rfl rfl
      · simp only [UInt8.toNat_ofNat', Nat.toUInt8]
        omega
    · cases h

theorem splitSuffix_cases (cs : List Char) :
    (splitSuffix cs).1 = [] ∨ (splitSuffix cs).1 = ['f'] ∨ (splitSuffix cs).1 = ['F'] := by
  fun_cases splitSuffix cs <;> simp_all

theorem number_wellRead {loc : Location} {cs : List Char} {l : Lexeme} (hs : startsNumber cs = true)
    (h : number loc cs = .ok l) : l.WellRead := by
  have hn := splitNumber_ne_nil hs
  simp only [number] at h
  split at h
  · next hd =>
    split at h
    · next hlt =>
      obtain rfl := Except.ok.inj h
      refine ⟨.int ⟨hn, List.all_eq_true.1 hd⟩ ?_, trivial⟩
      rw [Int32.toInt_ofNat_of_lt hlt]
    · cases h
  · next hd =>
    split at h
    · next n hr =>
      obtain rfl := Except.ok.inj h
      have hdigits : ¬Decimal.IsDigits _ := fun hi => hd (List.all_eq_true.2 hi.2)
      exact ⟨.float (Decimal.Numeral.written_of_read? hr) hdigits (splitSuffix_cases _), trivial⟩
    · cases h

theorem word_wellRead {c : Char} {cs : List Char} (h : isNameStart c = true) :
    (word (c :: cs)).WellRead := by
  have hs : (c :: cs).takeWhile isNameChar = c :: cs.takeWhile isNameChar := by
    simp [isNameChar_of_isNameStart h]
  unfold word
  rw [hs]
  refine ⟨Token.Kind.ofWord_spelled h (List.all_eq_true.1 List.all_takeWhile),
    Token.Kind.ofWord_stops fun d hd => ?_⟩
  exact Text.eq_false_of_mem_head?_dropWhile hd

theorem punctuator?_wellRead {cs : List Char} {l : Lexeme} (h : punctuator? cs = some l) :
    l.WellRead := by
  have hlong (p : Punct) {c d e : Char} {rest : List Char} :
      p.spelling.toList ≠ c :: d :: e :: rest := fun hp => by
    have := hp ▸ p.length_spelling_le
    simp at this
  fun_cases punctuator? cs with
  | case1 => cases h
  | case2 c =>
    obtain ⟨p, hp, rfl⟩ := Option.map_eq_some_iff.1 h
    exact ⟨Punct.spelling_of_single? hp ▸ .punct p, by simp [Token.Kind.Stops]⟩
  | case3 c d cs p hp =>
    obtain rfl : _ = l := by simpa [punctuator?, hp] using h
    exact ⟨Punct.spelling_of_pair? hp ▸ .punct p, fun _ _ q => hlong q⟩
  | case4 c d cs hp =>
    obtain ⟨p, hs, rfl⟩ : ∃ p, Punct.single? c = some p ∧ _ = l := by
      simpa [punctuator?, hp] using h
    refine ⟨Punct.spelling_of_single? hs ▸ .punct p, ?_⟩
    rintro _ ⟨⟩ q hq
    rw [Punct.pair?_of_spelling hq] at hp
    cases hp

/-- What is read is spelled as it can be, and reaches as far as it can. -/
theorem scan_wellRead {loc : Location} {c : Char} {cs : List Char} {l : Lexeme}
    (h : scan loc c cs = .ok l) : l.WellRead := by
  unfold scan at h
  split at h
  · exact charLiteral_wellRead h
  split at h
  · next hs => exact number_wellRead hs h
  split at h
  · next hc =>
    obtain rfl := Except.ok.inj h
    exact word_wellRead hc
  split at h
  · next hp =>
    obtain rfl := Except.ok.inj h
    exact punctuator?_wellRead hp
  · cases h

end Lexeme

end MiniC
