import MiniC.Operator

/-!
# Keywords and punctuators

A `Keyword` is a word of the grammar that is no type specifier, a `Punct` an operator sign or a
separator. `Punct.single?` and `Punct.pair?` find the punctuator of one and of two characters.

The operators of the language are punctuators : `Punct.binaryOp?`, `Punct.assignOp?`,
`Punct.unaryOp?` and `Punct.postfixOp?` say which operator a punctuator stands for in each place of
an expression.
-/

namespace MiniC

/-- A keyword that is not a type specifier. -/
inductive Keyword where
  | ifKw
  | elseKw
  | whileKw
  | forKw
  | returnKw
deriving DecidableEq, Inhabited, Repr

namespace Keyword

/-- The word itself. -/
def spelling : Keyword → String
  | ifKw => "if"
  | elseKw => "else"
  | whileKw => "while"
  | forKw => "for"
  | returnKw => "return"

/-- All keywords that are not type specifiers. -/
def all : List Keyword := [ifKw, elseKw, whileKw, forKw, returnKw]

end Keyword

/-- An operator sign or a separator. -/
inductive Punct where
  | plus
  | minus
  | star
  | slash
  | percent
  | equalEqual
  | bangEqual
  | less
  | lessEqual
  | greater
  | greaterEqual
  | bang
  | tilde
  | equal
  | plusEqual
  | minusEqual
  | starEqual
  | slashEqual
  | percentEqual
  | plusPlus
  | minusMinus
  | question
  | colon
  | leftParen
  | rightParen
  | leftBrace
  | rightBrace
  | semicolon
  | comma
deriving DecidableEq, Inhabited, Repr

namespace Punct

/-- The characters of a punctuator. -/
def spelling : Punct → String
  | plus => "+"
  | minus => "-"
  | star => "*"
  | slash => "/"
  | percent => "%"
  | equalEqual => "=="
  | bangEqual => "!="
  | less => "<"
  | lessEqual => "<="
  | greater => ">"
  | greaterEqual => ">="
  | bang => "!"
  | tilde => "~"
  | equal => "="
  | plusEqual => "+="
  | minusEqual => "-="
  | starEqual => "*="
  | slashEqual => "/="
  | percentEqual => "%="
  | plusPlus => "++"
  | minusMinus => "--"
  | question => "?"
  | colon => ":"
  | leftParen => "("
  | rightParen => ")"
  | leftBrace => "\x7b"
  | rightBrace => "\x7d"
  | semicolon => ";"
  | comma => ","

/-- The operator a punctuator is between two operands. -/
def binaryOp? : Punct → Option BinaryOp
  | plus => some .add
  | minus => some .sub
  | star => some .mul
  | slash => some .div
  | percent => some .mod
  | less => some .lt
  | greater => some .gt
  | lessEqual => some .le
  | greaterEqual => some .ge
  | equalEqual => some .eq
  | bangEqual => some .ne
  | _ => none

/-- The assignment a punctuator stands for. -/
def assignOp? : Punct → Option AssignOp
  | equal => some .assign
  | plusEqual => some .add
  | minusEqual => some .sub
  | starEqual => some .mul
  | slashEqual => some .div
  | percentEqual => some .mod
  | _ => none

/-- The operator a punctuator is in front of an operand. -/
def unaryOp? : Punct → Option UnaryOp
  | plus => some .plus
  | minus => some .neg
  | bang => some .not
  | tilde => some .bitNot
  | plusPlus => some .preInc
  | minusMinus => some .preDec
  | _ => none

/-- The operator a punctuator is behind an operand. -/
def postfixOp? : Punct → Option PostfixOp
  | plusPlus => some .inc
  | minusMinus => some .dec
  | _ => none

/-- The punctuator of one character. -/
def single? (c : Char) : Option Punct :=
  match c with
  | '+' => some plus
  | '-' => some minus
  | '*' => some star
  | '/' => some slash
  | '%' => some percent
  | '=' => some equal
  | '!' => some bang
  | '<' => some less
  | '>' => some greater
  | '~' => some tilde
  | '?' => some question
  | ':' => some colon
  | '(' => some leftParen
  | ')' => some rightParen
  | '{' => some leftBrace
  | '}' => some rightBrace
  | ';' => some semicolon
  | ',' => some comma
  | _ => none

/-- The punctuator of two characters. -/
def pair? (c d : Char) : Option Punct :=
  if d = '=' then
    match c with
    | '+' => some plusEqual
    | '-' => some minusEqual
    | '*' => some starEqual
    | '/' => some slashEqual
    | '%' => some percentEqual
    | '=' => some equalEqual
    | '!' => some bangEqual
    | '<' => some lessEqual
    | '>' => some greaterEqual
    | _ => none
  else if c = '+' ∧ d = '+' then some plusPlus
  else if c = '-' ∧ d = '-' then some minusMinus
  else none

end Punct

end MiniC
