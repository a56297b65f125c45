import MiniC.Event

/-!
# Derivations of expressions

A `Term tier` is a derivation of an expression from the grammar, and `tier` the nonterminal it
starts at. Its `tokens` are the text that it derives, with the place of every token. Its `events`
are its nodes in postorder : the rule of a construct stands behind those of its parts, at the place
of the operator.

```text
expression   ::= assignment (',' assignment)*
assignment   ::= conditional [ASSIGN assignment]
conditional  ::= operands ['?' expression ':' conditional]
operands     ::= below (BINARY below)*
unary        ::= UNARY unary | postfixed
postfixed    ::= primary POSTFIX*
primary      ::= LITERAL | NAME | '(' expression ')'
```

The operators of a `Precedence` stand between terms one step tighter (`Precedence.below`), and group
to the left, as commas do; assignments and conditional expressions group to the right.
-/

namespace MiniC

/-- The nonterminals of an expression. -/
inductive Tier where
  | primary
  | postfixed
  | unary
  /-- Operands joined by operators of the given precedence or tighter ones. -/
  | operands (level : Precedence)
  | conditional
  | assignment
  | expression

/-- What the operators of a precedence stand between. -/
def Precedence.below (level : Precedence) : Tier :=
  match level.tighter? with
  | some tighter => .operands tighter
  | none => .unary

/-- The derivations of an expression from a nonterminal. -/
inductive Term : Tier → Type where
  | literal (value : Value) (loc : Location) : Term .primary
  | identifier (name : String) (loc : Location) : Term .primary
  | parens (left : Location) (e : Term .expression) (right : Location) : Term .primary
  | ofPrimary (e : Term .primary) : Term .postfixed
  | postfixed (e : Term .postfixed) {p : Punct} {op : PostfixOp} (h : p.postfixOp? = some op)
      (loc : Location) : Term .postfixed
  | ofPostfixed (e : Term .postfixed) : Term .unary
  | unary {p : Punct} {op : UnaryOp} (h : p.unaryOp? = some op) (loc : Location)
      (e : Term .unary) : Term .unary
  | ofBelow {level : Precedence} (e : Term level.below) : Term (.operands level)
  | binary {level : Precedence} (lhs : Term (.operands level)) {p : Punct} {op : BinaryOp}
      (h : p.binaryOp? = some op) (hl : op.precedence = level) (loc : Location)
      (rhs : Term level.below) : Term (.operands level)
  | ofOperands (e : Term (.operands .equality)) : Term .conditional
  | ternary (condition : Term (.operands .equality)) (question : Location)
      (yes : Term .expression) (colon : Location) (no : Term .conditional) : Term .conditional
  | ofConditional (e : Term .conditional) : Term .assignment
  | assign (target : Term .conditional) {p : Punct} {op : AssignOp} (h : p.assignOp? = some op)
      (loc : Location) (source : Term .assignment) : Term .assignment
  | ofAssignment (e : Term .assignment) : Term .expression
  | comma (first : Term .expression) (loc : Location) (second : Term .assignment) :
      Term .expression

namespace Term

/-- The text that is derived. -/
def tokens {tier : Tier} : Term tier → List Token
  | literal value loc => [⟨.literal value, loc⟩]
  | identifier name loc => [⟨.name name, loc⟩]
  | parens left e right => ⟨.punct .leftParen, left⟩ :: e.tokens ++ [⟨.punct .rightParen, right⟩]
  | @postfixed e p _ _ loc => e.tokens ++ [⟨.punct p, loc⟩]
  | @unary p _ _ loc e => ⟨.punct p, loc⟩ :: e.tokens
  | @binary _ lhs p _ _ _ loc rhs => lhs.tokens ++ ⟨.punct p, loc⟩ :: rhs.tokens
  | ternary condition question yes colon no =>
    condition.tokens ++ ⟨.punct .question, question⟩ :: yes.tokens ++
      ⟨.punct .colon, colon⟩ :: no.tokens
  | @assign target p _ _ loc source => target.tokens ++ ⟨.punct p, loc⟩ :: source.tokens
  | comma first loc second => first.tokens ++ ⟨.punct .comma, loc⟩ :: second.tokens
  | ofPrimary e | ofPostfixed e | ofBelow e | ofOperands e | ofConditional e | ofAssignment e =>
    e.tokens

/-- The rules of the derivation in postorder. -/
def events {tier : Tier} : Term tier → List Event
  | literal value loc => [⟨.literal value, loc⟩]
  | identifier name loc => [⟨.identifier name, loc⟩]
  | @postfixed e _ op _ loc => e.events ++ [⟨.postfixed op, loc⟩]
  | @unary _ op _ loc e => e.events ++ [⟨.unary op, loc⟩]
  | @binary _ lhs _ op _ _ loc rhs => lhs.events ++ rhs.events ++ [⟨.binary op, loc⟩]
  | ternary condition question yes _ no =>
    condition.events ++ yes.events ++ no.events ++ [⟨.ternary, question⟩]
  | @assign target _ op _ loc source => target.events ++ source.events ++ [⟨.assign op, loc⟩]
  | comma first loc second => first.events ++ second.events ++ [⟨.comma, loc⟩]
  | parens _ e _ | ofPrimary e | ofPostfixed e | ofBelow e | ofOperands e | ofConditional e
  | ofAssignment e => e.events

attribute [simp] tokens events

/-- A constant or a name alone. -/
def alone (e : Term .primary) : Term .conditional :=
  ofOperands (ofBelow (ofBelow (ofBelow (ofBelow (ofPostfixed (ofPrimary e))))))

end Term

end MiniC
