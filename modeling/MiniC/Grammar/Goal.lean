import MiniC.Event

/-!
# The grammar, one step at a time

A `Goal` is a part of a program that has yet to be read, and a text is parsed by a stack of goals.
`Goal.action` is the whole grammar : what a goal does in front of the tokens `ts`. It reads one
token, or is replaced by goals without reading one, or completes a rule, or finds that no program
goes on like this. One token decides, except that a function is told from a variable by the
parenthesis behind its name.

```text
program      ::= external*
external     ::= [type] NAME '(' [parameter (',' parameter)*] ')' '{' item* '}' | declaration
parameter    ::= type [NAME]
declaration  ::= type declarator (',' declarator)* ';'
declarator   ::= NAME ['=' assignment]
item         ::= declaration | statement
statement    ::= 'return' [expression] ';' | 'if' '(' expression ')' statement ['else' statement]
               | 'while' '(' expression ')' statement
               | 'for' '(' simple simple [expression] ')' statement | '{' item* '}' | simple
simple       ::= [expression] ';'
expression   ::= assignment (',' assignment)*
assignment   ::= conditional [ASSIGN assignment]
conditional  ::= operands ['?' expression ':' conditional]
operands     ::= unary (BINARY unary)*, by precedence
unary        ::= UNARY unary | primary POSTFIX*
primary      ::= LITERAL | NAME | '(' expression ')'
```

A goal that `reads` cannot be done without reading a token. `Goal.weight` falls with every
replacement, so that only finitely many goals are replaced between two tokens.
-/

namespace MiniC

/-- A part of a program that has yet to be read. -/
inductive Goal where
  /-- The external declarations up to the end; `joined` when one went before. -/
  | externals (joined : Bool)
  | external
  /-- A function definition from its name on; `typed` when its type went before. -/
  | function (typed : Bool)
  /-- The parameters in front of the closing parenthesis, if any. -/
  | parameters
  | parameter
  /-- The name of a parameter of the given type, if any, and the parameters behind it. -/
  | parameterName (type : DataType)
  /-- A comma and the parameters behind it, or nothing. -/
  | moreParameters
  | declaration
  | declarator
  /-- The initializer of the variable `name`, if any, which stands at `loc`. -/
  | initializer (name : String) (loc : Location)
  /-- A comma and the declarators behind it, or nothing. -/
  | moreDeclarators
  /-- The items of a block up to its closing brace; `joined` when one went before. -/
  | items (joined : Bool)
  | item
  | statement
  /-- A return statement behind its keyword at `loc`. -/
  | returnValue (loc : Location)
  /-- The else branch of the conditional statement at `loc`, if any. -/
  | elseBranch (loc : Location)
  | simple
  /-- The last clause of a loop in front of the closing parenthesis. -/
  | increment
  | expression
  /-- A comma and the expressions behind it, or nothing. -/
  | moreExpressions
  | assignment
  /-- An assignment operator and its right side, or nothing. -/
  | moreAssignment
  | conditional
  /-- A question mark and the branches behind it, or nothing. -/
  | moreConditional
  /-- Operands joined by operators of the given precedence or tighter ones. -/
  | operands (level : Precedence)
  /-- Operators of the given precedence with their right sides, or nothing. -/
  | moreOperands (level : Precedence)
  | unary
  | primary
  /-- Postfix operators, or nothing. -/
  | morePostfixed
  /-- One punctuator, and the rule it completes at its place, if any. -/
  | sign (p : Punct) (context : String) (rule : Option Rule)
  /-- Nothing to read : a rule is completed. -/
  | emit (rule : Rule) (loc : Location)
deriving DecidableEq, Inhabited

/-- What a goal does in front of the remaining tokens. -/
inductive Action where
  /-- The rule of the event is completed. -/
  | emit (event : Event)
  /-- The goal is replaced by the goals, which have to be met one after the other. -/
  | replace (goals : List Goal)
  /-- The same, behind the first token; `rest` are the tokens behind it. -/
  | read (goals : List Goal) (rest : List Token)
  /-- No program goes on like this. -/
  | fail (what : Expectation)

/-- The place where the remaining tokens start. -/
def TokenList.place (ts : TokenList) : Location :=
  match ts.tokens with
  | [] => ts.stop
  | t :: _ => t.location

namespace Goal

/-- The rule that is completed behind every part of a sequence but the first. -/
def joinedBy (joined : Bool) (loc : Location) : List Goal :=
  if joined then [emit .sequence loc] else []

/-- Whether a function definition, and no other declaration, starts the tokens. -/
def startsFunction : List Token → Bool
  | ⟨.type _, _⟩ :: ⟨.name _, _⟩ :: ⟨.punct .leftParen, _⟩ :: _ => true
  | ⟨.name _, _⟩ :: ⟨.punct .leftParen, _⟩ :: _ => true
  | _ => false

/-- What the operators of the given precedence stand between. -/
def operandsBelow (level : Precedence) : Goal :=
  match level.tighter? with
  | some tighter => operands tighter
  | none => unary

/-- What an external declaration does in front of its first token. -/
def externalAction : List Token → Action
  | ⟨.type type, loc⟩ :: ts =>
    if startsFunction (⟨.type type, loc⟩ :: ts) then
      .read [emit (.typeSpecifier type) loc, function true] ts
    else .replace [declaration]
  | ⟨.name name, loc⟩ :: ts =>
    if startsFunction (⟨.name name, loc⟩ :: ts) then .replace [function false] else .fail .external
  | _ => .fail .external

/-- What a statement does in front of its first token. -/
def statementAction : List Token → Action
  | ⟨.keyword .returnKw, loc⟩ :: ts => .read [returnValue loc] ts
  | ⟨.keyword .ifKw, loc⟩ :: ts =>
    .read [sign .leftParen "after 'if'" none, expression,
      sign .rightParen "after if condition" none, statement, elseBranch loc] ts
  | ⟨.keyword .whileKw, loc⟩ :: ts =>
    .read [sign .leftParen "after 'while'" none, expression,
      sign .rightParen "after while condition" none, statement, emit .whileLoop loc] ts
  | ⟨.keyword .forKw, loc⟩ :: ts =>
    .read [sign .leftParen "after 'for'" none, simple, simple, increment,
      sign .rightParen "after for clauses" none, statement, emit .forLoop loc] ts
  | ⟨.punct .leftBrace, loc⟩ :: ts =>
    .read [emit .openScope loc, items false,
      sign .rightBrace "after block" (some .closeScope)] ts
  | _ => .replace [simple]

/-- What a primary expression does in front of its first token. -/
def primaryAction : List Token → Action
  | ⟨.literal value, loc⟩ :: ts => .read [emit (.literal value) loc] ts
  | ⟨.name name, loc⟩ :: ts => .read [emit (.identifier name) loc] ts
  | ⟨.punct .leftParen, _⟩ :: ts =>
    .read [expression, sign .rightParen "after expression" none] ts
  | _ => .fail .expression

/-- What a goal does in front of the tokens `ts`. -/
def action (goal : Goal) (ts : TokenList) : Action :=
  match goal with
  | emit rule loc => .emit ⟨rule, loc⟩
  | sign p context rule =>
    match ts.tokens with
    | ⟨.punct q, loc⟩ :: rest =>
      if q = p then .read (rule.elim [] fun r => [emit r loc]) rest else .fail (.sign p context)
    | _ => .fail (.sign p context)
  | externals joined =>
    match ts.tokens with
    | [] => .replace []
    | _ => .replace (external :: joinedBy joined ts.place ++ [externals true])
  | external => externalAction ts.tokens
  | function typed =>
    match ts.tokens with
    | ⟨.name name, loc⟩ :: rest =>
      .read [emit (.functionDeclarator name typed) loc,
        sign .leftParen "after function name" none, parameters,
        sign .rightParen "after parameters" none,
        sign .leftBrace "before function body" none, items false,
        sign .rightBrace "after function body" none,
        emit (.functionDefinition name typed) loc] rest
    | _ => .fail .identifier
  | parameters =>
    match ts.tokens with
    | ⟨.punct .rightParen, _⟩ :: _ => .replace []
    | _ => .replace [parameter]
  | parameter =>
    match ts.tokens with
    | ⟨.type type, _⟩ :: rest => .read [parameterName type] rest
    | _ => .fail .parameterType
  | parameterName type =>
    match ts.tokens with
    | ⟨.name name, loc⟩ :: rest => .read [emit (.parameter name type) loc, moreParameters] rest
    | _ => .replace [moreParameters]
  | moreParameters =>
    match ts.tokens with
    | ⟨.punct .comma, _⟩ :: rest => .read [parameter] rest
    | _ => .replace []
  | declaration =>
    match ts.tokens with
    | ⟨.type type, loc⟩ :: rest =>
      .read [emit (.typeSpecifier type) loc, declarator, moreDeclarators,
        sign .semicolon "after declaration" (some .declaration)] rest
    | _ => .fail .typeSpecifier
  | declarator =>
    match ts.tokens with
    | ⟨.name name, loc⟩ :: rest => .read [initializer name loc] rest
    | _ => .fail .identifier
  | initializer name loc =>
    match ts.tokens with
    | ⟨.punct .equal, _⟩ :: rest =>
      .read [emit (.declTarget name) loc, assignment, emit (.initDeclarator name) loc] rest
    | _ => .replace [emit (.declarator name) loc]
  | moreDeclarators =>
    match ts.tokens with
    | ⟨.punct .comma, loc⟩ :: rest => .read [declarator, emit .comma loc, moreDeclarators] rest
    | _ => .replace []
  | items joined =>
    match ts.tokens with
    | [] | ⟨.punct .rightBrace, _⟩ :: _ =>
      .replace (if joined then [] else [emit .emptyBlock ts.place])
    | _ => .replace (item :: joinedBy joined ts.place ++ [items true])
  | item =>
    match ts.tokens with
    | ⟨.type _, _⟩ :: _ => .replace [declaration]
    | _ => .replace [statement]
  | statement => statementAction ts.tokens
  | returnValue loc =>
    match ts.tokens with
    | ⟨.punct .semicolon, _⟩ :: _ =>
      .replace [sign .semicolon "after return" none, emit (.returned false) loc]
    | _ => .replace [expression, sign .semicolon "after return" none, emit (.returned true) loc]
  | elseBranch loc =>
    match ts.tokens with
    | ⟨.keyword .elseKw, _⟩ :: rest => .read [statement, emit .ifElse loc] rest
    | _ => .replace [emit .ifThen loc]
  | simple =>
    match ts.tokens with
    | ⟨.punct .semicolon, loc⟩ :: rest => .read [emit .emptyStatement loc] rest
    | _ => .replace [expression, sign .semicolon "after expression" none]
  | increment =>
    match ts.tokens with
    | ⟨.punct .rightParen, loc⟩ :: _ => .replace [emit .emptyStatement loc]
    | _ => .replace [expression]
  | expression => .replace [assignment, moreExpressions]
  | moreExpressions =>
    match ts.tokens with
    | ⟨.punct .comma, loc⟩ :: rest => .read [assignment, emit .comma loc, moreExpressions] rest
    | _ => .replace []
  | assignment => .replace [conditional, moreAssignment]
  | moreAssignment =>
    match ts.tokens with
    | ⟨.punct p, loc⟩ :: rest =>
      match p.assignOp? with
      | some op => .read [assignment, emit (.assign op) loc] rest
      | none => .replace []
    | _ => .replace []
  | conditional => .replace [operands .equality, moreConditional]
  | moreConditional =>
    match ts.tokens with
    | ⟨.punct .question, loc⟩ :: rest =>
      .read [expression, sign .colon "in ternary expression" none, conditional,
        emit .ternary loc] rest
    | _ => .replace []
  | operands level => .replace [operandsBelow level, moreOperands level]
  | moreOperands level =>
    match ts.tokens with
    | ⟨.punct p, loc⟩ :: rest =>
      match p.binaryOp? with
      | some op =>
        if op.precedence = level then
          .read [operandsBelow level, emit (.binary op) loc, moreOperands level] rest
        else .replace []
      | none => .replace []
    | _ => .replace []
  | unary =>
    match ts.tokens with
    | ⟨.punct p, loc⟩ :: rest =>
      match p.unaryOp? with
      | some op => .read [unary, emit (.unary op) loc] rest
      | none => .replace [primary, morePostfixed]
    | _ => .replace [primary, morePostfixed]
  | primary => primaryAction ts.tokens
  | morePostfixed =>
    match ts.tokens with
    | ⟨.punct p, loc⟩ :: rest =>
      match p.postfixOp? with
      | some op => .read [emit (.postfixed op) loc, morePostfixed] rest
      | none => .replace []
    | _ => .replace []

/-! ## Why parsing ends -/

/-- Whether a goal cannot be done without reading a token. -/
def reads : Goal → Bool
  | external | function _ | parameter | declaration | declarator | item | statement
  | returnValue _ | simple | expression | assignment | conditional | operands _ | unary | primary
  | sign _ _ _ => true
  | externals _ | parameters | parameterName _ | moreParameters | initializer _ _
  | moreDeclarators | items _ | elseBranch _ | increment | moreExpressions | moreAssignment
  | moreConditional | moreOperands _ | morePostfixed | emit _ _ => false

/-- More than the weights of the goals that replace a goal, up to the first that reads. -/
def weight : Goal → Nat
  | emit _ _ | sign _ _ _ | function _ | parameter | declaration | declarator
  | moreParameters | moreDeclarators | moreExpressions | moreAssignment | moreConditional
  | moreOperands _ | morePostfixed | primary => 1
  | parameters | parameterName _ | initializer _ _ | elseBranch _ | external | unary => 2
  | externals _ => 3
  | operands level => 2 + level.rank
  | conditional => 7
  | assignment => 8
  | expression => 9
  | simple | returnValue _ | increment => 10
  | statement => 11
  | item => 12
  | items _ => 13

/-- The weight of the goals of a stack up to the first that reads. -/
def stackWeight : List Goal → Nat
  | [] => 0
  | goal :: goals => if goal.reads then goal.weight else goal.weight + stackWeight goals

theorem reads_operandsBelow (level : Precedence) : (operandsBelow level).reads = true := by
  cases level <;> rfl

theorem weight_operandsBelow (level : Precedence) :
    (operandsBelow level).weight < (operands level).weight := by
  cases level <;> decide

/-- Between two tokens, the goals get lighter when one is replaced. -/
theorem stackWeight_replace {goal : Goal} {ts : TokenList} {new : List Goal} (goals : List Goal)
    (h : goal.action ts = .replace new) :
    stackWeight (new ++ goals) < stackWeight (goal :: goals) := by
  revert h
  cases goal with
  | operands level =>
    intro h
    obtain rfl := Action.replace.inj h
    have hr : (operands level).reads = true := rfl
    simpa [stackWeight, reads_operandsBelow, hr] using weight_operandsBelow level
  | _ =>
    simp only [action, externalAction, statementAction, primaryAction]
    (repeat' split) <;> intro h <;> cases h <;>
      simp [stackWeight, reads, weight, Precedence.rank] <;> omega

/-- Reading a token leaves fewer of them. -/
theorem length_read {goal : Goal} {ts : TokenList} {new : List Goal} {rest : List Token}
    (h : goal.action ts = .read new rest) : rest.length < ts.tokens.length := by
  revert h
  cases goal <;> simp only [action, externalAction, statementAction, primaryAction]
  all_goals (repeat' split) <;> intro h <;> cases h <;> simp_all

/-- Only a completed rule is told. -/
theorem eq_emit {goal : Goal} {ts : TokenList} {event : Event} (h : goal.action ts = .emit event) :
    goal = emit event.rule event.location := by
  revert h
  cases goal <;> simp only [action, externalAction, statementAction, primaryAction]
  all_goals (repeat' split) <;> intro h <;> cases h <;> rfl

end Goal

end MiniC
