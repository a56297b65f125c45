import MiniC.Decimal.Numeral
import MiniC.Token
import MiniC.Token.Error

/-!
# Lexemes

A `Lexeme` is a token as it is spelled, with the text behind it. `Lexeme.scan` reads the lexeme in
front of a text : the longest that its first character allows.

Nothing is lost : the spelling and what is behind it are the text, and no spelling is empty
(`Lexeme.scan_splits`).
-/

namespace MiniC

/-- A token with its spelling and the text behind it. -/
structure Lexeme where
  kind : Token.Kind
  spelling : List Char
  rest : List Char
deriving DecidableEq, Inhabited

namespace Lexeme

/-- The lexeme was read off the front of the text `cs`, and is not empty. -/
def Splits (l : Lexeme) (cs : List Char) : Prop :=
  l.spelling ++ l.rest = cs ∧ l.spelling ≠ []

/-- The quote around a character literal. -/
def quote : Char := '\x27'

/-- The byte that a backslash and `c` stand for. -/
def escape? (c : Char) : Option UInt8 :=
  if c = 'n' then some 10
  else if c = 't' then some 9
  else if c = 'r' then some 13
  else if c = '\\' then some 92
  else if c = quote then some 39
  else if c = '0' then some 0
  else none

/-- Reads the quote that closes the character literal of value `value`, which is spelled `spelled`
so far and starts at `loc`. -/
def closeChar (loc : Location) (spelled : List Char) (value : UInt8) :
    List Char → Except LexError Lexeme
  | [] => .error ⟨.unclosedCharLiteral, loc.after spelled⟩
  | c :: cs =>
    if c = quote then .ok ⟨.literal (.char value), spelled ++ [c], cs⟩
    else .error ⟨.unclosedCharLiteral, loc.after (spelled ++ [c])⟩

/-- Reads the character literal at `loc`, given the text behind its opening quote. -/
def charLiteral (loc : Location) : List Char → Except LexError Lexeme
  | [] => .error ⟨.endInCharLiteral, loc.after [quote]⟩
  | ['\\'] => .error ⟨.endInCharLiteral, loc.after [quote, '\\']⟩
  | '\\' :: c :: cs =>
    match escape? c with
    | some value => closeChar loc [quote, '\\', c] value cs
    | none => .error ⟨.unknownEscape c, loc.after [quote, '\\', c]⟩
  | c :: cs =>
    if c.toNat < 128 then closeChar loc [quote, c] c.toNat.toUInt8 cs
    else .error ⟨.nonAsciiCharLiteral c, loc⟩

/-- The part of a number that is being read. -/
inductive NumberPart where
  /-- Before the point. -/
  | whole
  /-- Behind the point or in an exponent. -/
  | part
  /-- At the start of an exponent. -/
  | mark
deriving DecidableEq, Inhabited, Repr

/-- Whether the text can go on an exponent mark : with a digit or a sign. -/
def opensExponent : List Char → Bool
  | [] => false
  | c :: _ => c.isDigit || Decimal.Numeral.isSign c

/-- Splits a text behind the number in front of it. -/
def splitNumber : NumberPart → List Char → List Char × List Char
  | _, [] => ([], [])
  | p, c :: cs =>
    let next : Option NumberPart :=
      if c.isDigit then some (if p = .whole then .whole else .part)
      else if c = '.' ∧ p = .whole then some .part
      else if p = .mark ∧ Decimal.Numeral.isSign c then some .part
      else if Decimal.Numeral.isExponentMark c ∧ opensExponent cs then some .mark
      else none
    match next with
    | some q =>
      let (number, rest) := splitNumber q cs
      (c :: number, rest)
    | none => ([], c :: cs)

/-- Splits a text behind the suffix of a float literal in front of it, if there is one. -/
def splitSuffix : List Char → List Char × List Char
  | c :: cs => if c = 'f' ∨ c = 'F' then ([c], cs) else ([], c :: cs)
  | [] => ([], [])

/-- Reads the number in front of `cs`, which starts at `loc`. A number of digits alone is an
integer and has to fit, any other is a float and may have a suffix. -/
def number (loc : Location) (cs : List Char) : Except LexError Lexeme :=
  let (spelling, rest) := splitNumber .whole cs
  if spelling.all Char.isDigit then
    let n := Decimal.ofDigits spelling
    if n < Nat.pow 2 31 then .ok ⟨.literal (.int (Int32.ofNat n)), spelling, rest⟩
    else .error ⟨.integerTooLarge spelling, loc⟩
  else
    match Decimal.Numeral.read? spelling with
    | some n =>
      .ok ⟨.literal (.float n.toFloat32), spelling ++ (splitSuffix rest).1, (splitSuffix rest).2⟩
    | none => .error ⟨.malformedFloat spelling, loc⟩

/-- Whether a name can start with the character. -/
def isNameStart (c : Char) : Bool := c.isAlpha || c = '_'

/-- Whether a name can go on with the character. -/
def isNameChar (c : Char) : Bool := c.isAlphanum || c = '_'

/-- Reads the word in front of `cs`. -/
def word (cs : List Char) : Lexeme :=
  let spelling := cs.takeWhile isNameChar
  ⟨.ofWord (String.ofList spelling), spelling, cs.dropWhile isNameChar⟩

/-- Reads the punctuator in front of a text, of two characters if it can be. -/
def punctuator? : List Char → Option Lexeme
  | [] => none
  | [c] => (Punct.single? c).map fun p => ⟨.punct p, [c], []⟩
  | c :: d :: cs =>
    match Punct.pair? c d with
    | some p => some ⟨.punct p, [c, d], cs⟩
    | none => (Punct.single? c).map fun p => ⟨.punct p, [c], d :: cs⟩

/-- Whether a number starts a text : a digit, or a point and a digit. -/
def startsNumber : List Char → Bool
  | c :: d :: _ => c.isDigit || (c = '.' && d.isDigit)
  | [c] => c.isDigit
  | [] => false

/-- Reads the lexeme in front of the nonempty text `c :: cs`, which starts at `loc`. -/
def scan (loc : Location) (c : Char) (cs : List Char) : Except LexError Lexeme :=
  if c = quote then charLiteral loc cs
  else if startsNumber (c :: cs) then number loc (c :: cs)
  else if isNameStart c then .ok (word (c :: cs))
  else
    match punctuator? (c :: cs) with
    | some l => .ok l
    | none => .error ⟨.unexpectedCharacter c, loc⟩

/-! ## Nothing is lost -/

theorem splitNumber_append (p : NumberPart) (cs : List Char) :
    (splitNumber p cs).1 ++ (splitNumber p cs).2 = cs := by
  fun_induction splitNumber p cs <;> simp_all

theorem splitSuffix_append (cs : List Char) : (splitSuffix cs).1 ++ (splitSuffix cs).2 = cs := by
  fun_cases splitSuffix cs <;> simp

theorem closeChar_splits {loc : Location} {spelled : List Char} {value : UInt8}
    {cs : List Char} {l : Lexeme} (h : closeChar loc spelled value cs = .ok l) :
    l.Splits (spelled ++ cs) := by
  fun_cases closeChar loc spelled value cs <;> simp_all [closeChar]
  subst h
  simp [Splits]

theorem charLiteral_splits {loc : Location} {cs : List Char} {l : Lexeme}
    (h : charLiteral loc cs = .ok l) : l.Splits (quote :: cs) := by
  unfold charLiteral at h
  split at h
  · simp at h
  · simp at h
  · split at h
    · exact closeChar_splits h
    · simp at h
  · split at h
    · exact closeChar_splits h
    · simp at h

theorem splitNumber_ne_nil {cs : List Char} (h : startsNumber cs = true) :
    (splitNumber .whole cs).1 ≠ [] := by
  match cs with
  | [] => simp [startsNumber] at h
  | [c] =>
    have hc : c.isDigit = true := by simpa [startsNumber] using h
    simp [splitNumber, hc]
  | c :: d :: cs =>
    simp only [startsNumber, Bool.or_eq_true, Bool.and_eq_true, decide_eq_true_eq] at h
    rcases h with h | ⟨rfl, _⟩
    · simp [splitNumber, h]
    · simp [splitNumber]

theorem number_splits {loc : Location} {cs : List Char} {l : Lexeme}
    (hs : startsNumber cs = true) (h : number loc cs = .ok l) : l.Splits cs := by
  have ha := splitNumber_append .whole cs
  have hn := splitNumber_ne_nil hs
  simp only [number] at h
  split at h
  · split at h
    · obtain rfl := Except.ok.inj h
      exact ⟨ha, hn⟩
    · simp at h
  · split at h
    · obtain rfl := Except.ok.inj h
      refine ⟨?_, by simp [hn]⟩
      rw [List.append_assoc, splitSuffix_append, ha]
    · simp at h

theorem isNameChar_of_isNameStart {c : Char} (h : isNameStart c = true) : isNameChar c = true := by
  simp only [isNameStart, isNameChar, Char.isAlphanum, Bool.or_eq_true] at *
  rcases h with h | h
  · exact Or.inl (Or.inl h)
  · exact Or.inr h

theorem word_splits {c : Char} {cs : List Char} (h : isNameStart c = true) :
    (word (c :: cs)).Splits (c :: cs) := by
  refine ⟨List.takeWhile_append_dropWhile, ?_⟩
  simp [word, isNameChar_of_isNameStart h]

theorem punctuator?_splits {cs : List Char} {l : Lexeme} (h : punctuator? cs = some l) :
    l.Splits cs := by
  fun_cases punctuator? cs <;> simp_all [punctuator?]
  · obtain ⟨p, _, rfl⟩ := h
    simp [Splits]
  · subst h
    simp [Splits]
  · obtain ⟨p, _, rfl⟩ := h
    simp [Splits]

/-- A lexeme and the text behind it are the text it was read from. -/
theorem scan_splits {loc : Location} {c : Char} {cs : List Char} {l : Lexeme}
    (h : scan loc c cs = .ok l) : l.Splits (c :: cs) := by
  unfold scan at h
  split at h
  · next hc => exact hc ▸ charLiteral_splits h
  split at h
  · next hs => exact number_splits hs h
  split at h
  · next hc =>
    obtain rfl := Except.ok.inj h
    exact word_splits hc
  split at h
  · next hp =>
    obtain rfl := Except.ok.inj h
    exact punctuator?_splits hp
  · simp at h

theorem length_scan {loc : Location} {c : Char} {cs : List Char} {l : Lexeme}
    (h : scan loc c cs = .ok l) : l.rest.length ≤ cs.length := by
  obtain ⟨h, hn⟩ := scan_splits h
  have := congrArg List.length h
  have := List.length_pos_iff.2 hn
  simp only [List.length_append, List.length_cons] at *
  omega

end Lexeme

end MiniC
