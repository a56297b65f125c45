import MiniC.Location
import MiniC.Operator
import MiniC.Token.Error
import MiniC.Token
import MiniC.Value

/-!
# Events

A parse is told as a list of events. An `Event` is a grammar rule that was completed, and a place.
The parts of a construct come before the construct, in the order of the text, so that the operands
of a rule are the latest subtrees built when its event arrives.

An `EventStream` is the events of a text up to its end or up to its first `SyntaxError`.
-/

namespace MiniC

/-- A completed grammar rule. -/
inductive Rule where
  /-- A nested block opened. -/
  | openScope
  /-- A nested block closed. -/
  | closeScope
  /-- A type specifier began a declaration or a function definition. -/
  | typeSpecifier (type : DataType)
  /-- The name of a function, and whether a type specifier stood before it. -/
  | functionDeclarator (name : String) (typed : Bool)
  | parameter (name : String) (type : DataType)
  /-- The body of a function ended. -/
  | functionDefinition (name : String) (typed : Bool)
  /-- The name of an initialised variable, before its initializer. -/
  | declTarget (name : String)
  /-- An initialised variable, behind its initializer. -/
  | initDeclarator (name : String)
  /-- A variable without an initializer. -/
  | declarator (name : String)
  /-- A declaration ended. -/
  | declaration
  | identifier (name : String)
  | literal (value : Value)
  | unary (op : UnaryOp)
  | postfixed (op : PostfixOp)
  | binary (op : BinaryOp)
  | assign (op : AssignOp)
  | ternary
  | comma
  | emptyStatement
  | emptyBlock
  /-- Two statements or declarations stand one behind the other. -/
  | sequence
  | ifThen
  | ifElse
  | whileLoop
  | forLoop
  /-- A return, and whether it has a value. -/
  | returned (value : Bool)
deriving DecidableEq, Inhabited

/-- A completed rule and its place. -/
structure Event where
  rule : Rule
  location : Location
deriving DecidableEq, Inhabited

/-- What the grammar asks for next. -/
inductive Expectation where
  /-- A punctuator, and where it is missing. -/
  | sign (p : Punct) (context : String)
  | identifier
  | expression
  | parameterType
  | typeSpecifier
  | external
deriving DecidableEq, Inhabited, Repr

namespace Expectation

/-- What is asked for, in words. -/
def text : Expectation → String
  | sign p context => s!"Expected '{p.spelling}' {context}"
  | identifier => "Expected identifier"
  | expression => "Expected expression"
  | parameterType => "Expected parameter type"
  | typeSpecifier => "Expected type specifier"
  | external => "Expected declaration or function definition"

end Expectation

/-- Why a text is no program. -/
inductive SyntaxFault where
  /-- It is no sequence of tokens. -/
  | lexical (fault : LexFault)
  /-- A token, or the end of the text, stands where something else has to. -/
  | unexpected (what : Expectation) (found : Option Token.Kind)
  /-- A fault that the source of the events reports in its own words. -/
  | reported (message : String)
deriving DecidableEq, Inhabited

namespace SyntaxFault

/-- The fault in words. -/
def message : SyntaxFault → String
  | lexical fault => fault.message
  | unexpected what (some kind) => s!"{what.text}, found {kind.text}"
  | unexpected what none => s!"{what.text}, found end of file"
  | reported message => message

end SyntaxFault

/-- A fault and its place. -/
structure SyntaxError where
  fault : SyntaxFault
  location : Location
deriving DecidableEq, Inhabited

namespace SyntaxError

/-- The error with its place in words. -/
def text (e : SyntaxError) : String :=
  s!"Parse error at line {e.location.line}, column {e.location.column}: {e.fault.message}"

end SyntaxError

/-- The events of a text, and the error that cut it short, if any. -/
structure EventStream where
  events : List Event
  failure : Option SyntaxError
deriving DecidableEq, Inhabited

end MiniC
