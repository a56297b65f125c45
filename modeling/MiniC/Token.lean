import MiniC.Decimal.Shortest
import MiniC.Location
import MiniC.Token.Punct
import MiniC.Value

/-!
# Tokens

A `Token` is a `Token.Kind` and the place it starts at. A kind is a literal, a name, a type
specifier, another keyword or a punctuator. `Token.Kind.text` is how a kind is called in a message :
what it is, and then its spelling or value. `Token.Kind.ofWord` tells names from keywords.
-/

namespace MiniC

namespace Token

/-- What a token is, without its place. -/
inductive Kind where
  | literal (value : Value)
  | name (text : String)
  | type (specifier : DataType)
  | keyword (word : Keyword)
  | punct (sign : Punct)
deriving DecidableEq, Inhabited

namespace Kind

/-- A character literal as a message shows it : a printable ASCII character, or else its code. -/
def charText (c : UInt8) : String :=
  if 32 ≤ c ∧ c ≤ 126 then String.ofList ['\x27', Char.ofNat c.toNat, '\x27']
  else String.ofList ('\x27' :: '\\' :: 'x' :: Value.hexDigits c ++ ['\x27'])

/-- The kind as a message calls it. -/
def text : Kind → String
  | literal (.int n) => "int literal " ++ toString n.toInt
  | literal (.float x) => "float literal " ++ Decimal.shortest x
  | literal (.char c) => "char literal " ++ charText c
  | name text => s!"identifier '{text}'"
  | type specifier => s!"'{specifier.name}'"
  | keyword word => s!"'{word.spelling}'"
  | punct sign => s!"'{sign.spelling}'"

/-- The token that a word is : a type specifier, a keyword or a name. -/
def ofWord (word : String) : Kind :=
  match DataType.all.find? (·.name = word), Keyword.all.find? (·.spelling = word) with
  | some specifier, _ => .type specifier
  | none, some k => .keyword k
  | none, none => .name word

end Kind

end Token

/-- A token and the place of its first character. -/
structure Token where
  kind : Token.Kind
  location : Location
deriving DecidableEq, Inhabited

/-- The tokens of a text, and the place where the text ends. -/
structure TokenList where
  tokens : List Token
  stop : Location
deriving DecidableEq, Inhabited

end MiniC
