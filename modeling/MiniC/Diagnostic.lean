import MiniC.Event

/-!
# Diagnostics

A `Diagnostic` is a `Problem` and the line it was found on. A problem never stops an analysis; its
`Problem.severity` tells the errors from the warnings.
-/

namespace MiniC

/-- How bad a problem is. -/
inductive Severity where
  | warning
  | error
deriving DecidableEq, Inhabited, Repr

namespace Severity

/-- The severity as a diagnostic shows it. -/
def name : Severity → String
  | warning => "warning"
  | error => "error"

end Severity

/-- What can be wrong with a program. -/
inductive Problem where
  /-- The text is no program. -/
  | syntaxError (fault : SyntaxFault)
  | undeclared (name : String)
  | redefinition (name : String)
  /-- A value of type `source` is stored as `target` and can lose information. -/
  | narrowing (source target : DataType)
  /-- A function has no type specifier. -/
  | missingType
  | divisionByZero
  /-- A remainder of operands of these types, one of them a float. -/
  | invalidOperands (lhs rhs : DataType)
  | notAssignable
deriving DecidableEq, Inhabited

namespace Problem

/-- How bad the problem is. -/
def severity : Problem → Severity
  | narrowing _ _ | missingType | divisionByZero => .warning
  | syntaxError _ | undeclared _ | redefinition _ | invalidOperands _ _ | notAssignable => .error

/-- The problem in words. -/
def message : Problem → String
  | syntaxError fault => s!"syntax error: {fault.message}"
  | undeclared name => s!"use of undeclared identifier '{name}'"
  | redefinition name => s!"redefinition of '{name}'"
  | narrowing source target => s!"implicit conversion from '{source.name}' to '{target.name}'"
  | missingType => "type specifier missing, defaults to 'int'"
  | divisionByZero => "division by zero is undefined"
  | invalidOperands lhs rhs =>
    s!"invalid operands to binary expression ('{lhs.name}' and '{rhs.name}')"
  | notAssignable => "expression is not assignable"

end Problem

/-- A problem and its line. -/
structure Diagnostic where
  line : Nat
  problem : Problem
deriving DecidableEq, Inhabited

namespace Diagnostic

/-- How bad the problem is. -/
def severity (d : Diagnostic) : Severity := d.problem.severity

/-- The problem in words. -/
def message (d : Diagnostic) : String := d.problem.message

/-- Whether the problem is an error. -/
def isError (d : Diagnostic) : Bool := d.severity = .error

/-- The diagnostic as one line of text. -/
def text (d : Diagnostic) : String := s!"Line:{d.line}: {d.severity.name}: {d.message}"

end Diagnostic

end MiniC
