import MiniC.Symbol.Table
import MiniC.Text.Blank

/-!
# The symbol report

A `Report` has a row for every symbol that was declared, in the order in which the symbols were
made, but none for a function called `main`. `Report.text` lays the rows out under a title and a
header, every column as wide as its widest cell and two blanks apart. A width counts the bytes of a
cell and the blanks behind it its characters; no line ends in white space.
-/

namespace MiniC

/-- What the report says of a symbol. -/
structure Report.Row where
  kind : SymbolKind
  name : String
  type : DataType
  scope : Nat
  line : Nat
  /-- The value it is known to hold; a function holds none. -/
  value : Option Value
deriving DecidableEq, Inhabited

namespace Report.Row

/-- The row of a symbol. An undeclared symbol has none, nor has the function `main`. -/
def ofSymbol? (s : Symbol) : Option Row :=
  match s.type with
  | none => none
  | some type =>
    if s.kind = .function ∧ s.name = "main" then none
    else some ⟨s.kind, s.name, type, s.scope, s.line, if s.kind = .function then none else s.value⟩

/-- A row keeps the name and the line of its symbol. -/
theorem kept_of_ofSymbol? {s : Symbol} {row : Row} (h : ofSymbol? s = some row) :
    row.name = s.name ∧ row.line = s.line := by
  unfold ofSymbol? at h
  split at h
  · cases h
  · split at h
    · cases h
    · obtain rfl := Option.some.inj h
      exact ⟨rfl, rfl⟩

/-- The six cells of a row. A value that is not known is a dash. -/
def cells (r : Row) : List String :=
  [r.kind.tag, r.name, r.type.name, toString r.scope, toString r.line,
    (r.value.map Value.text).getD "-"]

end Report.Row

/-- What is known of the declared symbols at the end. -/
structure Report where
  rows : List Report.Row
deriving DecidableEq, Inhabited

namespace Report

/-- The headers of the columns. -/
def headers : List String := ["Symbol", "Name", "Type", "Scope", "Line Number", "Value"]

/-- The first line of the report. -/
def title : String := "Symbol Table"

/-- Whether there are no rows. -/
def isEmpty (r : Report) : Bool := r.rows.isEmpty

/-- The last row of a symbol called `name`. -/
def find? (r : Report) (name : String) : Option Row := r.rows.reverse.find? (·.name = name)

/-- The width of each column : that of its widest cell, in bytes. -/
def columnWidths (r : Report) : List Nat :=
  r.rows.foldl (fun widths row => widths.zipWith max (row.cells.map String.utf8ByteSize))
    (headers.map String.utf8ByteSize)

/-- The text with as many blanks behind it as make it `width` characters long. -/
def padded (width : Nat) (cell : String) : List Char :=
  cell.toList ++ List.replicate (width - cell.length) ' '

/-- The cells of a line, laid out in columns of the given widths. -/
def line (widths : List Nat) (cells : List String) : String :=
  String.ofList (Text.trimmedRight ([' ', ' '].intercalate (widths.zipWith padded cells)))

/-- The lines of the report. -/
def lines (r : Report) : List String :=
  title :: (headers :: r.rows.map Row.cells).map (line r.columnWidths)

/-- The report as text, a line break behind every line. -/
def text (r : Report) : String := String.join (r.lines.map (· ++ "\n"))

end Report

/-- What the report says of the symbols of the table. -/
def SymbolTable.report (t : SymbolTable) : Report :=
  ⟨t.symbols.toList.filterMap Report.Row.ofSymbol?⟩

end MiniC
