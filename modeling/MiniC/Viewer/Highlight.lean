import MiniC.Text.Alphanumeric
import MiniC.Token
import MiniC.Viewer.Canvas

/-!
# Highlighting a line of source text

`highlight` cuts a line into words, single characters between them, and at most one comment, which
goes on to the end of the line. `wordStyle` is the style of a word : type specifiers, keywords,
numbers and the names of functions stand out. `highlightFrom` does the same in one pass over the
characters, which keeps the word it is in.
-/

namespace MiniC.Viewer

/-- Whether a character belongs to a word. -/
def isWordChar (c : Char) : Bool := Text.isAlphanumeric c || c = '_' || c = '.'

/-- Whether a comment starts the text. -/
def startsComment : List Char → Bool
  | '/' :: '/' :: _ => true
  | _ => false

/-- The style of a word; `called` when a parenthesis opens right behind it. -/
def wordStyle (word : List Char) (called : Bool) : Style :=
  if DataType.all.any (·.name.toList = word) then .colored Theme.typeName
  else if Keyword.all.any (·.spelling.toList = word) then (Style.colored Theme.keyword).bolded
  else if word.head?.any Char.isDigit then .colored Theme.literal
  else if called then .colored Theme.function
  else .colored Theme.text

/-- The style of a character that belongs to no word. -/
def signStyle (c : Char) : Style :=
  if c = '{' ∨ c = '}' ∨ c = '(' ∨ c = ')' then .colored Theme.accent else .colored Theme.text

/-- A line cut into texts of one style each. A word in front of a comment is not highlighted. -/
def highlight : List Char → List Span
  | [] => []
  | c :: cs =>
    if startsComment (c :: cs) then [⟨c :: cs, .colored Theme.muted⟩]
    else if isWordChar c then
      let word := c :: cs.takeWhile isWordChar
      let rest := cs.dropWhile isWordChar
      let style := if startsComment rest then .plain else wordStyle word (rest.head? = some '(')
      ⟨word, style⟩ :: highlight rest
    else ⟨[c], signStyle c⟩ :: highlight cs
termination_by cs => cs.length
decreasing_by
  · exact Nat.lt_succ_of_le (List.dropWhile_sublist _).length_le
  · exact Nat.lt_succ_self _

/-! ## In one pass -/

/-- The span of the word that was read last, if there is one. -/
def pendingSpan (word : List Char) (style : Style) : List Span :=
  if word = [] then [] else [⟨word, style⟩]

/-- A line cut character by character : `spans` is done, and `word` may still go on. -/
def highlightFrom (spans : List Span) (word : List Char) : List Char → List Span
  | [] => spans ++ pendingSpan word (wordStyle word false)
  | c :: cs =>
    if startsComment (c :: cs) then
      spans ++ pendingSpan word .plain ++ [⟨c :: cs, .colored Theme.muted⟩]
    else if isWordChar c then highlightFrom spans (word ++ [c]) cs
    else
      let done := spans ++ pendingSpan word (wordStyle word (c = '('))
      highlightFrom (done ++ [⟨[c], signStyle c⟩]) [] cs

end MiniC.Viewer
