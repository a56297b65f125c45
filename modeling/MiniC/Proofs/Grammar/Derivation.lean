import MiniC.Proofs.Grammar.Term

/-!
# Derivations of programs

A `Program` is a derivation of a whole program from the grammar, with its `tokens` and its `events`
in postorder, as for a `Term`. Statements, the items of a block and lists of items are one family,
`Code`, since they contain each other; everything else is a type of its own.

```text
program      ::= external*
external     ::= [type] NAME '(' parameters ')' '{' item* '}' | declaration
parameters   ::= ['void' | type [NAME] (',' type [NAME])*]
declaration  ::= type declarator (',' declarator)* ';'
declarator   ::= NAME ['=' assignment]
item         ::= declaration | statement
statement    ::= 'return' [expression] ';' | 'if' '(' expression ')' statement ['else' statement]
               | 'while' '(' expression ')' statement
               | 'for' '(' simple simple [expression] ')' statement | '{' item* '}' | simple
simple       ::= [expression] ';'
```

A list leaves its parts joined in pairs, so that the rule that joins them stands behind every part
but the first. Where there is nothing between two braces or in front of a closing parenthesis, a
rule for it stands at the closing one.

The grammar leaves open which conditional statement an else branch belongs to. In a derivation that
is `ElseNearest` it belongs to the nearest : the branch in front of it is not itself a statement
that could take it (`Code.isOpen`).
-/

namespace MiniC

/-- The place of the first token. -/
def placeOf (tokens : List Token) : Location := (tokens.head?.map Token.location).getD default

/-! ## Declarations -/

/-- A variable, with or without an initializer. -/
inductive Declarator where
  | plain (name : String) (loc : Location)
  | initialized (name : String) (loc equal : Location) (value : Term .assignment)

namespace Declarator

def tokens : Declarator → List Token
  | plain name loc => [⟨.name name, loc⟩]
  | initialized name loc equal value => ⟨.name name, loc⟩ :: ⟨.punct .equal, equal⟩ :: value.tokens

def events : Declarator → List Event
  | plain name loc => [⟨.declarator name, loc⟩]
  | initialized name loc _ value =>
    ⟨.declTarget name, loc⟩ :: value.events ++ [⟨.initDeclarator name, loc⟩]

end Declarator

/-- Variables with commas between them. -/
inductive Declarators where
  | one (d : Declarator)
  | more (ds : Declarators) (comma : Location) (d : Declarator)

namespace Declarators

def tokens : Declarators → List Token
  | one d => d.tokens
  | more ds comma d => ds.tokens ++ ⟨.punct .comma, comma⟩ :: d.tokens

def events : Declarators → List Event
  | one d => d.events
  | more ds comma d => ds.events ++ d.events ++ [⟨.comma, comma⟩]

end Declarators

/-- A type and the variables of that type. -/
structure Declaration where
  type : DataType
  loc : Location
  declarators : Declarators
  semicolon : Location

namespace Declaration

def tokens (d : Declaration) : List Token :=
  ⟨.type d.type, d.loc⟩ :: d.declarators.tokens ++ [⟨.punct .semicolon, d.semicolon⟩]

def events (d : Declaration) : List Event :=
  ⟨.typeSpecifier d.type, d.loc⟩ :: d.declarators.events ++ [⟨.declaration, d.semicolon⟩]

end Declaration

/-! ## Parameters -/

/-- A parameter, with or without a name. -/
structure Parameter where
  type : DataType
  loc : Location
  name : Option (String × Location)

namespace Parameter

def tokens (p : Parameter) : List Token :=
  ⟨.type p.type, p.loc⟩ :: p.name.elim [] fun (name, loc) => [⟨.name name, loc⟩]

def events (p : Parameter) : List Event :=
  p.name.elim [] fun (name, loc) => [⟨.parameter name p.type, loc⟩]

end Parameter

/-- Parameters with commas between them. -/
inductive ParameterList where
  | one (p : Parameter)
  | more (p : Parameter) (comma : Location) (ps : ParameterList)

namespace ParameterList

def tokens : ParameterList → List Token
  | one p => p.tokens
  | more p comma ps => p.tokens ++ ⟨.punct .comma, comma⟩ :: ps.tokens

def events : ParameterList → List Event
  | one p => p.events
  | more p _ ps => p.events ++ ps.events

end ParameterList

/-- What stands between the parentheses of a function. -/
inductive Parameters where
  | empty
  | void (loc : Location)
  | list (ps : ParameterList)

namespace Parameters

def tokens : Parameters → List Token
  | empty => []
  | void loc => [⟨.type .void, loc⟩]
  | list ps => ps.tokens

def events : Parameters → List Event
  | empty | void _ => []
  | list ps => ps.events

end Parameters

/-! ## Statements -/

/-- An expression statement, or the empty one. -/
inductive Simple where
  | empty (semicolon : Location)
  | expression (e : Term .expression) (semicolon : Location)

namespace Simple

def tokens : Simple → List Token
  | empty semicolon => [⟨.punct .semicolon, semicolon⟩]
  | expression e semicolon => e.tokens ++ [⟨.punct .semicolon, semicolon⟩]

def events : Simple → List Event
  | empty semicolon => [⟨.emptyStatement, semicolon⟩]
  | expression e _ => e.events

end Simple

/-- The text of an expression that can be left out. -/
def tokensOf? (e : Option (Term .expression)) : List Token := e.elim [] Term.tokens

/-- The clauses of a loop between its parentheses. -/
structure Clauses where
  init : Simple
  condition : Simple
  step : Option (Term .expression)

namespace Clauses

def tokens (c : Clauses) : List Token := c.init.tokens ++ c.condition.tokens ++ tokensOf? c.step

/-- The rules of the clauses in front of the parenthesis at `close`. -/
def events (c : Clauses) (close : Location) : List Event :=
  c.init.events ++ c.condition.events ++ c.step.elim [⟨.emptyStatement, close⟩] Term.events

end Clauses

/-- The nonterminals for code that can contain statements. -/
inductive Part where
  | statement
  | item
  | items

/-- The derivations of code from a nonterminal. Keywords stand at `loc`. -/
inductive Code : Part → Type where
  | returned (loc : Location) (value : Option (Term .expression)) (semicolon : Location) :
      Code .statement
  | ifThen (loc left : Location) (condition : Term .expression) (right : Location)
      (yes : Code .statement) : Code .statement
  | ifElse (loc left : Location) (condition : Term .expression) (right : Location)
      (yes : Code .statement) (elseLoc : Location) (no : Code .statement) : Code .statement
  | whileLoop (loc left : Location) (condition : Term .expression) (right : Location)
      (body : Code .statement) : Code .statement
  | forLoop (loc left : Location) (clauses : Clauses) (right : Location)
      (body : Code .statement) : Code .statement
  | emptyBlock (opening closing : Location) : Code .statement
  | block (opening : Location) (items : Code .items) (closing : Location) : Code .statement
  | simple (s : Simple) : Code .statement
  | declaration (d : Declaration) : Code .item
  | statement (s : Code .statement) : Code .item
  | one (item : Code .item) : Code .items
  | more (items : Code .items) (item : Code .item) : Code .items

namespace Code

variable {part : Part}

def tokens {part : Part} : Code part → List Token
  | returned loc value semicolon =>
    ⟨.keyword .returnKw, loc⟩ :: tokensOf? value ++ [⟨.punct .semicolon, semicolon⟩]
  | ifThen loc left condition right yes =>
    ⟨.keyword .ifKw, loc⟩ :: ⟨.punct .leftParen, left⟩ :: condition.tokens ++
      ⟨.punct .rightParen, right⟩ :: yes.tokens
  | ifElse loc left condition right yes elseLoc no =>
    ⟨.keyword .ifKw, loc⟩ :: ⟨.punct .leftParen, left⟩ :: condition.tokens ++
      ⟨.punct .rightParen, right⟩ :: yes.tokens ++ ⟨.keyword .elseKw, elseLoc⟩ :: no.tokens
  | whileLoop loc left condition right body =>
    ⟨.keyword .whileKw, loc⟩ :: ⟨.punct .leftParen, left⟩ :: condition.tokens ++
      ⟨.punct .rightParen, right⟩ :: body.tokens
  | forLoop loc left clauses right body =>
    ⟨.keyword .forKw, loc⟩ :: ⟨.punct .leftParen, left⟩ :: clauses.tokens ++
      ⟨.punct .rightParen, right⟩ :: body.tokens
  | emptyBlock opening closing => [⟨.punct .leftBrace, opening⟩, ⟨.punct .rightBrace, closing⟩]
  | block opening items closing =>
    ⟨.punct .leftBrace, opening⟩ :: items.tokens ++ [⟨.punct .rightBrace, closing⟩]
  | simple s => s.tokens
  | declaration d => d.tokens
  | statement s => s.tokens
  | one item => item.tokens
  | more items item => items.tokens ++ item.tokens

def events {part : Part} : Code part → List Event
  | returned loc value _ => value.elim [] Term.events ++ [⟨.returned value.isSome, loc⟩]
  | ifThen loc _ condition _ yes => condition.events ++ yes.events ++ [⟨.ifThen, loc⟩]
  | ifElse loc _ condition _ yes _ no =>
    condition.events ++ yes.events ++ no.events ++ [⟨.ifElse, loc⟩]
  | whileLoop loc _ condition _ body => condition.events ++ body.events ++ [⟨.whileLoop, loc⟩]
  | forLoop loc _ clauses right body => clauses.events right ++ body.events ++ [⟨.forLoop, loc⟩]
  | emptyBlock opening closing =>
    [⟨.openScope, opening⟩, ⟨.emptyBlock, closing⟩, ⟨.closeScope, closing⟩]
  | block opening items closing =>
    ⟨.openScope, opening⟩ :: items.events ++ [⟨.closeScope, closing⟩]
  | simple s => s.events
  | declaration d => d.events
  | statement s => s.events
  | one item => item.events
  | more items item => items.events ++ item.events ++ [⟨.sequence, placeOf item.tokens⟩]

/-- Whether the code ends in a conditional statement that has no else branch. -/
def isOpen {part : Part} : Code part → Bool
  | ifThen _ _ _ _ _ => true
  | ifElse _ _ _ _ _ _ no => no.isOpen
  | whileLoop _ _ _ _ body | forLoop _ _ _ _ body => body.isOpen
  | statement s => s.isOpen
  | one item | more _ item => item.isOpen
  | returned _ _ _ | emptyBlock _ _ | block _ _ _ | simple _ | declaration _ => false

/-- Every else branch belongs to the nearest conditional statement. -/
def ElseNearest {part : Part} : Code part → Prop
  | ifElse _ _ _ _ yes _ no => yes.isOpen = false ∧ yes.ElseNearest ∧ no.ElseNearest
  | ifThen _ _ _ _ s | whileLoop _ _ _ _ s | forLoop _ _ _ _ s | statement s => s.ElseNearest
  | block _ items _ => items.ElseNearest
  | one item => item.ElseNearest
  | more items item => items.ElseNearest ∧ item.ElseNearest
  | returned _ _ _ | emptyBlock _ _ | simple _ | declaration _ => True

end Code

/-! ## Programs -/

/-- The items between two braces, if any. -/
abbrev Items := Option (Code .items)

namespace Items

def tokens (items : Items) : List Token := items.elim [] Code.tokens

/-- The rules of the items in front of the brace at `closing`. -/
def events (items : Items) (closing : Location) : List Event :=
  items.elim [⟨.emptyBlock, closing⟩] Code.events

def ElseNearest (items : Items) : Prop := items.elim True Code.ElseNearest

end Items

/-- The definition of a function from its name on. -/
structure Definition where
  name : String
  loc : Location
  left : Location
  parameters : Parameters
  right : Location
  opening : Location
  body : Items
  closing : Location

namespace Definition

def tokens (f : Definition) : List Token :=
  ⟨.name f.name, f.loc⟩ :: ⟨.punct .leftParen, f.left⟩ :: f.parameters.tokens ++
    ⟨.punct .rightParen, f.right⟩ :: ⟨.punct .leftBrace, f.opening⟩ :: f.body.tokens ++
    [⟨.punct .rightBrace, f.closing⟩]

/-- The rules of the definition, which has a type in front of it or not. -/
def events (f : Definition) (typed : Bool) : List Event :=
  ⟨.functionDeclarator f.name typed, f.loc⟩ :: f.parameters.events ++ f.body.events f.closing ++
    [⟨.functionDefinition f.name typed, f.loc⟩]

end Definition

/-- A function, with a type in front of it or not, or a declaration. -/
inductive External where
  | function (f : Definition)
  | typedFunction (type : DataType) (loc : Location) (f : Definition)
  | declaration (d : Declaration)

namespace External

def tokens : External → List Token
  | function f => f.tokens
  | typedFunction type loc f => ⟨.type type, loc⟩ :: f.tokens
  | declaration d => d.tokens

def events : External → List Event
  | function f => f.events false
  | typedFunction type loc f => ⟨.typeSpecifier type, loc⟩ :: f.events true
  | declaration d => d.events

def ElseNearest : External → Prop
  | function f | typedFunction _ _ f => f.body.ElseNearest
  | declaration _ => True

end External

/-- External declarations one behind the other. -/
inductive Externals where
  | one (x : External)
  | more (xs : Externals) (x : External)

namespace Externals

def tokens : Externals → List Token
  | one x => x.tokens
  | more xs x => xs.tokens ++ x.tokens

def events : Externals → List Event
  | one x => x.events
  | more xs x => xs.events ++ x.events ++ [⟨.sequence, placeOf x.tokens⟩]

def ElseNearest : Externals → Prop
  | one x => x.ElseNearest
  | more xs x => xs.ElseNearest ∧ x.ElseNearest

end Externals

/-- The derivations of a whole program. -/
abbrev Program := Option Externals

namespace Program

def tokens (p : Program) : List Token := p.elim [] Externals.tokens

def events (p : Program) : List Event := p.elim [] Externals.events

/-- Every else branch of the program belongs to the nearest conditional statement. -/
def ElseNearest (p : Program) : Prop := p.elim True Externals.ElseNearest

end Program

end MiniC
