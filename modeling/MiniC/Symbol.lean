import MiniC.Value

/-!
# Symbols

A `Symbol` is what is known of one name in one scope. It has no type until it is declared, and is
valid until its scope closes.
-/

namespace MiniC

/-- What a symbol names. -/
inductive SymbolKind where
  | identifier
  | function
  | param
deriving DecidableEq, Inhabited, Repr

namespace SymbolKind

/-- The kind as the report shows it. -/
def tag : SymbolKind → String
  | identifier => "identifier"
  | function => "function"
  | param => "param"

/-- All kinds of symbols. -/
def all : List SymbolKind := [identifier, function, param]

end SymbolKind

/-- What is known of one name in one scope. -/
structure Symbol where
  name : String
  kind : SymbolKind
  /-- The declared type, or none while the name was only used. -/
  type : Option DataType
  /-- The number of scopes around the one that the symbol belongs to. -/
  scope : Nat
  line : Nat
  /-- The value it is known to hold. -/
  value : Option Value
  /-- Whether its scope is still open. -/
  valid : Bool
deriving DecidableEq, Inhabited

namespace Symbol

/-- Whether the symbol was declared. -/
def isTyped (s : Symbol) : Bool := s.type.isSome

/-- The symbol declared with a type, unless it was before. -/
def declared (s : Symbol) (type : DataType) (value : Option Value) : Symbol :=
  if s.isTyped then s else { s with type := some type, value := value.map (·.convert type) }

/-- The symbol with another value, converted to its type. A symbol without a type holds none. -/
def assigned (s : Symbol) (value : Option Value) : Symbol :=
  match s.type with
  | some type => { s with value := value.map (·.convert type) }
  | none => s

end Symbol

end MiniC
