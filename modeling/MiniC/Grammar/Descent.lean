import MiniC.Grammar.Parse

/-!
# Recursive descent

`Goal.run` meets a stack of goals in front of a list of tokens. Here the same grammar is parsed by
methods that call one another (`Descent.call`), over the tokens of a text with its end as the last
entry. The next entry is found by the position of a `Progress` : where there is no entry at the
position, the parse halts for that reason (`Halt.outOfRange`), which is no syntax error. Only
`Descent.advance` changes the position, and the progress remembers where it has been.

A loop is a method that calls itself in the end. What a method does is told by what its calls do
(`Descent.body`), and calls may be nested as deep as is said : a call that never ended would halt at
every depth (`Halt.tooDeep`).
-/

namespace MiniC

/-- A token, or the end of the text, and its place. -/
structure Descent.Entry where
  /-- What the token is; the end is none. -/
  kind : Option Token.Kind
  location : Location
deriving DecidableEq, Inhabited

/-- The tokens and the end of the text behind them. -/
def TokenList.entries (ts : TokenList) : List Descent.Entry :=
  ts.tokens.map (fun t => ⟨some t.kind, t.location⟩) ++ [⟨none, ts.stop⟩]

/-- How far a parse has come. -/
structure Progress where
  /-- The number of the next entry. -/
  position : Nat
  /-- The positions before this one, the latest first. -/
  visited : List Nat
  /-- The rules completed so far, in order. -/
  events : List Event
deriving DecidableEq, Inhabited

/-- Before the first entry. -/
def Progress.start : Progress := ⟨0, [], []⟩

/-- Why a parse cannot go on. -/
inductive Halt where
  /-- There is no entry at the position. -/
  | outOfRange
  /-- Calls are nested deeper than they may be. -/
  | tooDeep
  | syntaxError (error : SyntaxError)
deriving DecidableEq, Inhabited

/-- Work that makes progress and ends with an answer or halts. -/
abbrev Descent (α : Type) := ExceptT Halt (StateM Progress) α

namespace Descent

variable (ts : TokenList)

/-! ## Entries -/

/-- The next entry. -/
def peek : Descent Entry := do
  match ts.entries[(← get).position]? with
  | some e => return e
  | none => throw .outOfRange

/-- The entry that many places behind the next one, if there is one. -/
def peekAhead (n : Nat) : Descent (Option Token.Kind) := do
  return ts.entries[(← get).position + n]?.bind Entry.kind

/-- The entry before the next one, or the first one if there is none before it. -/
def previous : Descent Entry := do
  match ts.entries[(← get).position - 1]? with
  | some e => return e
  | none => throw .outOfRange

/-- Goes behind the next entry, unless it is the end, and answers with the entry passed last. -/
def advance : Descent Entry := do
  if (← peek ts).kind.isSome then
    modify fun c => { c with position := c.position + 1, visited := c.position :: c.visited }
  previous ts

/-- A rule is completed. -/
def emit (rule : Rule) (loc : Location) : Descent Unit :=
  modify fun c => { c with events := c.events ++ [⟨rule, loc⟩] }

/-- No program goes on with the next entry. -/
def fail {α : Type} (what : Expectation) : Descent α := do
  let e ← peek ts
  throw (.syntaxError ⟨.unexpected what e.kind, e.location⟩)

/-- Whether the next entry is a token of the kind. -/
def check (kind : Token.Kind) : Descent Bool := return (← peek ts).kind = some kind

/-- Goes behind a token of the kind, if it is next. -/
def accept (kind : Token.Kind) : Descent Bool := do
  if ← check ts kind then
    let _ ← advance ts
    return true
  else return false

/-- Goes behind a punctuator, which has to be next. -/
def expectSign (p : Punct) (context : String) : Descent Unit := do
  if ← check ts (.punct p) then
    let _ ← advance ts
  else fail ts (.sign p context)

/-- Goes behind a name, which has to be next. -/
def expectName : Descent (String × Location) := do
  let e ← peek ts
  match e.kind with
  | some (.name name) => do
    let _ ← advance ts
    return (name, e.location)
  | _ => fail ts .identifier

/-- Goes behind a type specifier, if it is next. -/
def acceptType? : Descent (Option DataType) := do
  match (← peek ts).kind with
  | some (.type type) => do
    let _ ← advance ts
    return some type
  | _ => return none

/-! ## Methods -/

/-- The methods of the parser, and its loops. -/
inductive Method where
  /-- The external declarations up to the end; `joined` when one went before. -/
  | program (joined : Bool)
  | external
  | function
  /-- A function definition behind its type, which was there if it is `typed`. -/
  | named (typed : Bool)
  | parameters
  /-- A parameter, and those behind it. -/
  | parameter
  | declaration
  /-- The declarators behind the first one. -/
  | moreDeclarators
  | declarator
  /-- The items of a block; `joined` when one went before. -/
  | items (joined : Bool)
  | item
  | statement
  | simple
  /-- A return statement behind its keyword, as the next three are. -/
  | returned
  | ifThen
  | whileLoop
  | forLoop
  | expression
  /-- The assignments behind the first one. -/
  | moreExpressions
  | assignment
  | conditional
  | operands (level : Precedence)
  /-- The operators of a precedence and what stands behind them. -/
  | moreOperands (level : Precedence)
  | unary
  | postfixed
  /-- The postfix operators. -/
  | morePostfixed
  | primary
deriving DecidableEq, Inhabited

/-- What the operators of a precedence stand between. -/
def Method.operandsBelow (level : Precedence) : Method :=
  match level.tighter? with
  | some tighter => operands tighter
  | none => unary

/-- The punctuator that an entry is. -/
def punct? : Option Token.Kind → Option Punct
  | some (.punct p) => some p
  | _ => none

/-- The rule that a token completes alone. -/
def leafRule? : Option Token.Kind → Option Rule
  | some (.literal value) => some (.literal value)
  | some (.name name) => some (.identifier name)
  | _ => none

/-- Whether an entry is a name. -/
def isName : Option Token.Kind → Bool
  | some (.name _) => true
  | _ => false

/-- What a method does, given what calls do. -/
def body (call : Method → Descent Unit) (method : Method) : Descent Unit :=
  match method with
  | .program joined => do
    if (← peek ts).kind.isNone then return
    let loc := (← peek ts).location
    call .external
    if joined then emit .sequence loc
    call (.program true)
  | .external => do
    match (← peek ts).kind with
    | some (.type _) =>
      if isName (← peekAhead ts 1) && (← peekAhead ts 2) = some (.punct .leftParen) then
        call .function
      else call .declaration
    | some (.name _) =>
      if (← peekAhead ts 1) = some (.punct .leftParen) then call .function
      else fail ts .external
    | _ => fail ts .external
  | .function => do
    let loc := (← peek ts).location
    match ← acceptType? ts with
    | some type => do
      emit (.typeSpecifier type) loc
      call (.named true)
    | none => call (.named false)
  | .named typed => do
    let (name, loc) ← expectName ts
    emit (.functionDeclarator name typed) loc
    expectSign ts .leftParen "after function name"
    call .parameters
    expectSign ts .rightParen "after parameters"
    expectSign ts .leftBrace "before function body"
    call (.items false)
    expectSign ts .rightBrace "after function body"
    emit (.functionDefinition name typed) loc
  | .parameters => do
    if ← check ts (.punct .rightParen) then return
    if (← check ts (.type .void)) && (← peekAhead ts 1) = some (.punct .rightParen) then
      let _ ← advance ts
    else call .parameter
  | .parameter => do
    match ← acceptType? ts with
    | none => fail ts .parameterType
    | some type => do
      if isName (← peek ts).kind then
        let (name, loc) ← expectName ts
        emit (.parameter name type) loc
      if ← accept ts (.punct .comma) then call .parameter
  | .declaration => do
    let loc := (← peek ts).location
    match ← acceptType? ts with
    | none => fail ts .typeSpecifier
    | some type => do
      emit (.typeSpecifier type) loc
      call .declarator
      call .moreDeclarators
      expectSign ts .semicolon "after declaration"
      emit .declaration (← previous ts).location
  | .moreDeclarators => do
    if ← accept ts (.punct .comma) then
      let loc := (← previous ts).location
      call .declarator
      emit .comma loc
      call .moreDeclarators
  | .declarator => do
    let (name, loc) ← expectName ts
    if ← accept ts (.punct .equal) then
      emit (.declTarget name) loc
      call .assignment
      emit (.initDeclarator name) loc
    else emit (.declarator name) loc
  | .items joined => do
    let e ← peek ts
    if e.kind = some (.punct .rightBrace) ∨ e.kind = none then
      unless joined do emit .emptyBlock e.location
    else
      call .item
      if joined then emit .sequence e.location
      call (.items true)
  | .item => do
    match (← peek ts).kind with
    | some (.type _) => call .declaration
    | _ => call .statement
  | .statement => do
    let loc := (← peek ts).location
    if ← accept ts (.keyword .returnKw) then call .returned
    else if ← accept ts (.keyword .ifKw) then call .ifThen
    else if ← accept ts (.keyword .whileKw) then call .whileLoop
    else if ← accept ts (.keyword .forKw) then call .forLoop
    else if ← accept ts (.punct .leftBrace) then
      emit .openScope loc
      call (.items false)
      expectSign ts .rightBrace "after block"
      emit .closeScope (← previous ts).location
    else call .simple
  | .simple => do
    let loc := (← peek ts).location
    if ← accept ts (.punct .semicolon) then emit .emptyStatement loc
    else
      call .expression
      expectSign ts .semicolon "after expression"
  | .returned => do
    let loc := (← previous ts).location
    let value := !(← check ts (.punct .semicolon))
    if value then call .expression
    expectSign ts .semicolon "after return"
    emit (.returned value) loc
  | .ifThen => do
    let loc := (← previous ts).location
    expectSign ts .leftParen "after 'if'"
    call .expression
    expectSign ts .rightParen "after if condition"
    call .statement
    if ← accept ts (.keyword .elseKw) then
      call .statement
      emit .ifElse loc
    else emit .ifThen loc
  | .whileLoop => do
    let loc := (← previous ts).location
    expectSign ts .leftParen "after 'while'"
    call .expression
    expectSign ts .rightParen "after while condition"
    call .statement
    emit .whileLoop loc
  | .forLoop => do
    let loc := (← previous ts).location
    expectSign ts .leftParen "after 'for'"
    call .simple
    call .simple
    let e ← peek ts
    if e.kind = some (.punct .rightParen) then emit .emptyStatement e.location
    else call .expression
    expectSign ts .rightParen "after for clauses"
    call .statement
    emit .forLoop loc
  | .expression => do
    call .assignment
    call .moreExpressions
  | .moreExpressions => do
    if ← accept ts (.punct .comma) then
      let loc := (← previous ts).location
      call .assignment
      emit .comma loc
      call .moreExpressions
  | .assignment => do
    call .conditional
    let e ← peek ts
    match (punct? e.kind).bind Punct.assignOp? with
    | none => return
    | some op => do
      let _ ← advance ts
      call .assignment
      emit (.assign op) e.location
  | .conditional => do
    call (.operands .equality)
    if ← accept ts (.punct .question) then
      let loc := (← previous ts).location
      call .expression
      expectSign ts .colon "in ternary expression"
      call .conditional
      emit .ternary loc
  | .operands level => do
    call (.operandsBelow level)
    call (.moreOperands level)
  | .moreOperands level => do
    let e ← peek ts
    match ((punct? e.kind).bind Punct.binaryOp?).filter (·.precedence = level) with
    | none => return
    | some op => do
      let _ ← advance ts
      call (.operandsBelow level)
      emit (.binary op) e.location
      call (.moreOperands level)
  | .unary => do
    let e ← peek ts
    match (punct? e.kind).bind Punct.unaryOp? with
    | none => call .postfixed
    | some op => do
      let _ ← advance ts
      call .unary
      emit (.unary op) e.location
  | .postfixed => do
    call .primary
    call .morePostfixed
  | .morePostfixed => do
    let e ← peek ts
    match (punct? e.kind).bind Punct.postfixOp? with
    | none => return
    | some op => do
      let _ ← advance ts
      emit (.postfixed op) e.location
      call .morePostfixed
  | .primary => do
    let e ← peek ts
    match leafRule? e.kind with
    | some rule => do
      let _ ← advance ts
      emit rule e.location
    | none =>
      if ← accept ts (.punct .leftParen) then
        call .expression
        expectSign ts .rightParen "after expression"
      else fail ts .expression

/-- Calls a method. Calls may be nested as deep as `depth`. -/
def call (depth : Nat) (method : Method) : Descent Unit :=
  match depth with
  | 0 => throw .tooDeep
  | depth + 1 => body ts (call depth) method

/-- The answer of work that begins behind the progress `p`, or why it halts, and the progress made
by then. -/
def outcome {α : Type} (x : Descent α) (p : Progress) : Except Halt α × Progress :=
  (ExceptT.run x).run p

/-- The error in the text that a parse ended with, if it did. -/
def failure? : Except Halt Unit → Option SyntaxError
  | .error (.syntaxError e) => some e
  | .ok _ | .error .outOfRange | .error .tooDeep => none

end Descent

/-- The events of a token list, read as a program by descent. -/
def TokenList.descend (ts : TokenList) (depth : Nat) : EventStream :=
  let (answer, p) := Descent.outcome (Descent.call ts depth (.program false)) .start
  ⟨p.events, Descent.failure? answer⟩

end MiniC
