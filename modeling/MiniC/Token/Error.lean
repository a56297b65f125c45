import MiniC.Location

/-!
# Texts that are no sequence of tokens

A `LexFault` is why a text cannot be cut into tokens, a `LexError` the fault and its place.
-/

namespace MiniC

/-- Why a text cannot be cut into tokens. -/
inductive LexFault where
  | unexpectedCharacter (c : Char)
  | unterminatedComment
  | endInCharLiteral
  | unknownEscape (c : Char)
  | nonAsciiCharLiteral (c : Char)
  | unclosedCharLiteral
  | malformedFloat (spelling : List Char)
  | integerTooLarge (spelling : List Char)
deriving DecidableEq, Inhabited, Repr

namespace LexFault

/-- The fault in words. -/
def message : LexFault → String
  | unexpectedCharacter c => s!"Unexpected character: '{c}'"
  | unterminatedComment => "Unterminated block comment"
  | endInCharLiteral => "Unexpected end of file in character literal"
  | unknownEscape c => s!"Unknown escape sequence: \\{c}"
  | nonAsciiCharLiteral c => s!"Non-ASCII character literal: '{c}'"
  | unclosedCharLiteral => "Expected closing quote in character literal"
  | malformedFloat spelling => "Invalid float literal: " ++ String.ofList spelling
  | integerTooLarge spelling => "Invalid integer literal: " ++ String.ofList spelling

end LexFault

/-- A fault and its place. -/
structure LexError where
  fault : LexFault
  location : Location
deriving DecidableEq, Inhabited, Repr

namespace LexError

/-- The error with its place in words. -/
def text (e : LexError) : String :=
  s!"Lexer error at line {e.location.line}, column {e.location.column}: {e.fault.message}"

end LexError

end MiniC
