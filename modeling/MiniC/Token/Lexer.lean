import MiniC.Token.Gap
import MiniC.Token.Lexeme

/-!
# From a text to its tokens

A text is gaps and lexemes in turn. `tokenize` passes over a gap and reads a lexeme until the text
ends. It comes to an end because no lexeme is empty.
-/

namespace MiniC

/-- The tokens of the text `cs`, which starts at `loc`. -/
def tokensFrom (loc : Location) (cs : List Char) : Except LexError TokenList :=
  match _hg : Gap.skip .blank loc cs with
  | .error e => .error e
  | .ok ⟨stop, []⟩ => .ok ⟨[], stop⟩
  | .ok ⟨place, c :: r⟩ =>
    match _hs : Lexeme.scan place c r with
    | .error e => .error e
    | .ok l => (tokensFrom (place.after l.spelling) l.rest).map fun ts =>
        ⟨⟨l.kind, place⟩ :: ts.tokens, ts.stop⟩
termination_by cs.length
decreasing_by
  have hg := Gap.length_skip _hg
  have hs := Lexeme.length_scan _hs
  simp only [List.length_cons] at hg
  omega

/-- The tokens of a source text, or the first fault in it. -/
def tokenize (source : String) : Except LexError TokenList := tokensFrom .start source.toList

end MiniC
